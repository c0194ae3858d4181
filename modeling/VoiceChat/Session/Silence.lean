import VoiceChat.Session.Coherence
import VoiceChat.Session.Presence

/-!
# Silent peers

A peer that was connected once should be disconnected exactly while nothing was
heard from it for the peer timeout. `Watch` records next to a node what was heard
from whom and when, and who was ever connected; `Silenced` is the intended meaning,
right after the check for timeouts.

The program attains it in runs in which every packet from a peer that was connected
once also finds its entry connected, and refreshes that entry and no other
(`silenced_of_attentive`). A peer that timed out is not connected again by what it
goes on sending (`heard_stays_disconnected`): AUDIO, KEEPALIVE, PING and PONG refresh the time
and leave the state.
-/

set_option autoImplicit false

namespace VoiceChat

namespace Node

variable {D : Type}

/-- The ids of the connected entries. -/
def connectedIds (node : Node D) : List UInt8 :=
  node.peerMgr.peers.keys.filter fun k => node.Connected k

theorem mem_connectedIds {node : Node D} {k : UInt8} :
    k ∈ node.connectedIds ↔ node.Connected k := by
  rw [connectedIds, List.mem_filter, decide_eq_true_eq]
  refine and_iff_right_of_imp fun connected => ?_
  obtain ⟨peer, known⟩ := connected.knows
  exact AList.mem_keys.mp (HashMap.mem_iff_lookup.mpr ⟨peer, known⟩)

/-- The peer that is heard in an event. -/
def heardFrom (prim : Primitives D) (node : Node D) (env : Env D) : Event → Option UInt8
  | .recv data srcAddr =>
    match Packet.parse data with
    | .error _ => none
    | .ok packet => speaker prim node env srcAddr packet
  | _ => none

/-- A node with its history. -/
structure Watch (D : Type) where
  node : Node D
  /-- The time of the last step. -/
  now : Instant
  /-- Which peers were heard, and when. -/
  heard : List (Instant × UInt8)
  /-- Which peers were ever connected. -/
  met : List UInt8

/-- A session with its history as a machine. -/
def watching (prim : Primitives D) : Machine (Watch D) (Env D × Event) Emission where
  step watch input :=
    let (node, out) := Node.step prim watch.node input.1 input.2
    ({ node := node
       now := input.1.now
       heard := watch.heard ++
         (heardFrom prim watch.node input.1 input.2).toList.map (input.1.now, ·)
       met := watch.met ++ node.connectedIds }, out)

namespace Watch

/-- Nothing has happened yet. -/
def start (node : Node D) : Watch D := ⟨node, 0, [], []⟩

/-- The peer was heard within the timeout. -/
def HeardWithin (watch : Watch D) (k : UInt8) : Prop :=
  ∃ t, (t, k) ∈ watch.heard ∧ watch.now - t ≤ peerTimeout

/-- **Disconnected means silent.** Of the peers that were ever connected, those are
disconnected from which nothing was heard within the timeout, and the others are
connected. -/
def Silenced (watch : Watch D) : Prop :=
  ∀ k ∈ watch.met, ∃ peer, watch.node.getPeer k = some peer ∧
    (peer.state = .disconnected ↔ ¬ watch.HeardWithin k) ∧
    (watch.HeardWithin k → peer.state = .connected)

/-- The clock does not go back. -/
def Clocked (watch : Watch D) (input : Env D × Event) : Prop := watch.now ≤ input.1.now

instance (watch : Watch D) (input : Env D × Event) : Decidable (Clocked watch input) :=
  inferInstanceAs (Decidable (watch.now ≤ input.1.now))

/-- What a received packet does to the peers that were ever connected is what it says:
it lists none of them, it refreshes the one it is from and no other, and it finds that
one connected unless it connects it. -/
def AttendsPacket (prim : Primitives D) (watch : Watch D) (env : Env D) (srcAddr : SocketAddr)
    (packet : Packet) : Prop :=
  ∀ k ∈ watch.met, k ∉ relisted prim watch.node packet ∧
    (refreshed prim watch.node env srcAddr packet = some k ↔
      speaker prim watch.node env srcAddr packet = some k) ∧
    (speaker prim watch.node env srcAddr packet = some k →
      Greets packet ∨ watch.node.Connected k)

instance (prim : Primitives D) (watch : Watch D) (env : Env D) (srcAddr : SocketAddr)
    (packet : Packet) : Decidable (AttendsPacket prim watch env srcAddr packet) :=
  inferInstanceAs (Decidable (∀ k ∈ watch.met, _ ∧ _ ∧ _))

/-- The condition `AttendsPacket` on whatever a step receives. -/
def Attends (prim : Primitives D) (watch : Watch D) (input : Env D × Event) : Prop :=
  ∀ data srcAddr packet, input.2 = .recv data srcAddr → Packet.parse data = .ok packet →
    AttendsPacket prim watch input.1 srcAddr packet

/-! ## What the record says of the node -/

variable {prim : Primitives D} {watch : Watch D}

/-- What the record says of an entry: it was last seen when its peer was last heard,
and it is connected or timed out. -/
structure Records (watch : Watch D) (k : UInt8) (peer : RemotePeer D) : Prop where
  heard : (peer.lastSeen, k) ∈ watch.heard
  last : ∀ t, (t, k) ∈ watch.heard → t ≤ peer.lastSeen
  state : peer.state = .connected ∨
    peer.state = .disconnected ∧ peerTimeout < watch.now - peer.lastSeen

/-- The record goes with the node. -/
structure Faithful (watch : Watch D) : Prop where
  past : ∀ t k, (t, k) ∈ watch.heard → t ≤ watch.now
  met : ∀ k, watch.node.Connected k → k ∈ watch.met
  entry : ∀ k ∈ watch.met, ∃ peer, watch.node.getPeer k = some peer ∧ watch.Records k peer

theorem faithful_start {node : Node D} (starts : node.Starts) : (start node).Faithful where
  past t k heard := by cases heard
  met k connected := by
    obtain ⟨peer, known, _⟩ := connected
    cases starts with
    | host key sessionId keyExchange => cases known
    | joiner key keyExchange => cases known
  entry k member := by cases member

/-- What was heard, and what is heard now. -/
theorem mem_heard {input : Env D × Event} {t : Instant} {k : UInt8} :
    (t, k) ∈ ((watching prim).step watch input).1.heard ↔
      (t, k) ∈ watch.heard ∨
        t = input.1.now ∧ heardFrom prim watch.node input.1 input.2 = some k := by
  change (t, k) ∈ watch.heard ++ _ ↔ _
  rw [List.mem_append, List.mem_map]
  refine or_congr_right ⟨?_, ?_⟩
  · rintro ⟨k', spoke, same⟩
    cases same
    exact ⟨rfl, Option.mem_toList.mp spoke⟩
  · rintro ⟨rfl, spoke⟩
    exact ⟨k, Option.mem_toList.mpr spoke, rfl⟩

/-- A record of an entry that is just seen. -/
theorem Faithful.records_now (faithful : watch.Faithful) {input : Env D × Event}
    (clocked : watch.Clocked input) {k : UInt8}
    (spoke : heardFrom prim watch.node input.1 input.2 = some k) {peer : RemotePeer D}
    (seen : peer.lastSeen = input.1.now) (connected : peer.state = .connected) :
    ((watching prim).step watch input).1.Records k peer where
  heard := mem_heard.mpr (Or.inr ⟨seen, spoke⟩)
  last t heard := by
    rw [seen]
    rcases mem_heard.mp heard with before | ⟨rfl, _⟩
    · exact Nat.le_trans (faithful.past t k before) clocked
    · exact Nat.le_refl _
  state := Or.inl connected

/-- A record of an entry that nothing was heard of. -/
theorem Records.later {k : UInt8} {peer peer' : RemotePeer D} (records : watch.Records k peer)
    {input : Env D × Event} (clocked : watch.Clocked input)
    (quiet : heardFrom prim watch.node input.1 input.2 ≠ some k)
    (lastSeen : peer'.lastSeen = peer.lastSeen)
    (state : peer'.state = peer.state ∨
      peer'.state = .disconnected ∧ peerTimeout < input.1.now - peer.lastSeen) :
    ((watching prim).step watch input).1.Records k peer' where
  heard := by
    rw [lastSeen]
    exact mem_heard.mpr (Or.inl records.heard)
  last t heard := by
    rw [lastSeen]
    rcases mem_heard.mp heard with before | ⟨_, spoke⟩
    · exact records.last t before
    · exact absurd spoke quiet
  state := by
    change _ ∨ _ ∧ peerTimeout < input.1.now - peer'.lastSeen
    rw [lastSeen]
    rcases state with same | timedOut
    · rw [same]
      refine records.state.imp_right (And.imp_right fun out => ?_)
      exact Nat.lt_of_lt_of_le out (Nat.sub_le_sub_right clocked _)
    · exact Or.inr timedOut

/-- What connects an entry is from its peer. -/
theorem heardFrom_of_connects {node : Node D} {env : Env D} {data : Bytes} {srcAddr : SocketAddr}
    {packet : Packet} (parsed : Packet.parse data = .ok packet) {k : UInt8}
    (connects : Connects prim node env srcAddr packet k) :
    heardFrom prim node env (.recv data srcAddr) = some k := by
  have taken := connects.accepts
  rw [heardFrom, parsed]
  dsimp only
  cases connects with
  | join type opened allocated added known =>
      have isHost := (PeerManager.allocatePeerId_eq_ok allocated).1
      rw [speaker, if_pos type, joined, isHost, opened, allocated]
      dsimp only
      rw [added]
      rfl
  | hello type opened greeting known =>
      rw [speaker, taken, type]
      rfl
  | helloAck type opened known =>
      rw [speaker, taken, type]
      rfl

/-- An entry that a step connects for the first time. -/
theorem Faithful.records_of_connected (faithful : watch.Faithful) {input : Env D × Event}
    (clocked : watch.Clocked input) {k : UInt8} (unmet : k ∉ watch.met)
    (connected : ((watching prim).step watch input).1.node.Connected k) :
    ∃ peer, ((watching prim).step watch input).1.node.getPeer k = some peer ∧
      ((watching prim).step watch input).1.Records k peer := by
  rcases connected_of_step connected with
    before | ⟨data, srcAddr, packet, received, parsed, connects⟩
  · exact absurd (faithful.met k before) unmet
  · obtain ⟨env, event⟩ := input
    cases received
    obtain ⟨peer, known, state, seen⟩ := connects.entry parsed
    have spoke := heardFrom_of_connects parsed connects
    exact ⟨peer, known, faithful.records_now clocked spoke seen state⟩

/-- An entry in a step that receives nothing and checks no timeouts. -/
theorem Records.of_frame {k : UInt8} {peer : RemotePeer D} (records : watch.Records k peer)
    (known : watch.node.getPeer k = some peer) {input : Env D × Event}
    (clocked : watch.Clocked input) (quiet : heardFrom prim watch.node input.1 input.2 = none)
    (frame : Frame presence watch.node ((watching prim).step watch input).1.node) :
    ∃ peer', ((watching prim).step watch input).1.node.getPeer k = some peer' ∧
      ((watching prim).step watch input).1.Records k peer' := by
  obtain ⟨peer', known', same⟩ := frame.getPeer known
  obtain ⟨state, lastSeen⟩ := Prod.ext_iff.mp same
  refine ⟨peer', known', records.later clocked ?_ lastSeen (Or.inl state)⟩
  rw [quiet]
  exact fun heard => by cases heard

/-- An entry in a step that receives a packet. -/
theorem Faithful.records_of_packet (faithful : watch.Faithful) {k : UInt8}
    {peer : RemotePeer D} (known : watch.node.getPeer k = some peer)
    (records : watch.Records k peer) {env : Env D} {data : Bytes} {srcAddr : SocketAddr}
    {packet : Packet} (parsed : Packet.parse data = .ok packet)
    (clocked : watch.Clocked (env, .recv data srcAddr)) (member : k ∈ watch.met)
    (attends : AttendsPacket prim watch env srcAddr packet) :
    ∃ peer', ((watching prim).step watch (env, .recv data srcAddr)).1.node.getPeer k =
        some peer' ∧
      ((watching prim).step watch (env, .recv data srcAddr)).1.Records k peer' := by
  obtain ⟨unlisted, credited, awake⟩ := attends k member
  obtain ⟨peer', known', state, lastSeen⟩ := handlePacket_tracks unlisted peer known
  have from_speaker : heardFrom prim watch.node env (.recv data srcAddr) =
      speaker prim watch.node env srcAddr packet := by
    rw [heardFrom, parsed]
  have entered : ((watching prim).step watch (env, .recv data srcAddr)).1.node.getPeer k =
      some peer' := by
    change (handleIncoming prim watch.node env data srcAddr).node.getPeer k = some peer'
    rw [handleIncoming_eq prim parsed]
    exact known'
  refine ⟨peer', entered, ?_⟩
  by_cases spoke : speaker prim watch.node env srcAddr packet = some k
  · rw [if_pos (credited.mpr spoke)] at lastSeen
    refine faithful.records_now clocked (from_speaker.trans spoke) lastSeen ?_
    rcases awake spoke with greets | connected
    · rw [state, greeter, if_pos greets, if_pos spoke]
    · obtain ⟨peer'', known'', before⟩ := connected
      cases known.symm.trans known''
      rw [state, before, ite_self]
  · rw [if_neg fun refresh => spoke (credited.mp refresh)] at lastSeen
    have unmoved : ¬ greeter prim watch.node env srcAddr packet = some k := by
      rw [greeter]
      split_ifs
      · exact spoke
      · exact fun greets => by cases greets
    rw [if_neg unmoved] at state
    exact records.later clocked (from_speaker.trans_ne spoke) lastSeen (Or.inl state)

/-- An entry after the check for timeouts. -/
theorem getPeer_keepalive (prim : Primitives D) {node : Node D} {k : UInt8} {peer : RemotePeer D}
    (known : node.getPeer k = some peer) (env : Env D) :
    ∃ peer', (keepalive prim node env).1.getPeer k = some peer' ∧
      peer'.lastSeen = peer.lastSeen ∧
      (peer'.state = peer.state ∨
        peer'.state = .disconnected ∧ peerTimeout < env.now - peer.lastSeen) := by
  have frame : Frame presence node
      ((eachPeer fun node target => sealCounted prim node pktKeepalive [] 0 target.2).run node
        (node.peerMgr.connectedPeers env.order)) :=
    eachPeer_frame (fun node target => sealCounted_frame presence node pktKeepalive [] 0 target.2)
      node _
  obtain ⟨sent, known', same⟩ := frame.getPeer known
  obtain ⟨state, lastSeen⟩ := Prod.ext_iff.mp same
  change sent.state = peer.state at state
  change sent.lastSeen = peer.lastSeen at lastSeen
  refine ⟨_, (HashMap.lookup_mapValues _ _ k).trans (congrArg _ known'), ?_⟩
  dsimp only
  split_ifs with out
  · have late : peerTimeout < env.now - sent.lastSeen := of_decide_eq_true out.2
    rw [lastSeen] at late
    exact ⟨lastSeen, Or.inr ⟨rfl, late⟩⟩
  · exact ⟨lastSeen, Or.inl state⟩

/-- Whoever is connected after the check for timeouts was seen within the timeout. -/
theorem recent_of_keepalive {node : Node D} {env : Env D} {k : UInt8} {peer' : RemotePeer D}
    (known : (keepalive prim node env).1.getPeer k = some peer')
    (connected : peer'.state = .connected) : env.now - peer'.lastSeen ≤ peerTimeout := by
  change (HashMap.mapValues _ _).lookup k = some peer' at known
  rw [HashMap.lookup_mapValues] at known
  obtain ⟨peer, _, checked⟩ := Option.map_eq_some_iff.mp known
  split_ifs at checked with out
  · rw [← checked] at connected
    cases connected
  · subst checked
    refine Nat.le_of_not_lt fun late => out ⟨connected, ?_⟩
    exact decide_eq_true late

/-- An entry that was in the record. -/
theorem Faithful.records_of_met (faithful : watch.Faithful) {input : Env D × Event}
    (clocked : watch.Clocked input) (attends : watch.Attends prim input) {k : UInt8}
    (member : k ∈ watch.met) :
    ∃ peer, ((watching prim).step watch input).1.node.getPeer k = some peer ∧
      ((watching prim).step watch input).1.Records k peer := by
  obtain ⟨peer, known, records⟩ := faithful.entry k member
  obtain ⟨env, event⟩ := input
  cases event with
  | recv data srcAddr =>
      cases parsed : Packet.parse data with
      | ok packet =>
        exact faithful.records_of_packet known records parsed clocked member
          (attends data srcAddr packet rfl parsed)
      | error e =>
        have unparsed : handleIncoming prim watch.node env data srcAddr =
            .fail watch.node [] e := by
          rw [handleIncoming, parsed]
        refine records.of_frame known clocked (by rw [heardFrom, parsed]) ?_
        change Frame presence watch.node (handleIncoming prim watch.node env data srcAddr).node
        rw [unparsed]
        exact Frame.refl presence watch.node
  | frame opus =>
      exact records.of_frame known clocked rfl
        (sendFrame_frame watch.node env opus (fun _ _ => rfl) fun _ _ _ _ => rfl)
  | playout =>
      exact records.of_frame known clocked rfl (playout_frame watch.node fun _ _ _ => rfl)
  | keepalive =>
      obtain ⟨peer', known', lastSeen, state⟩ := getPeer_keepalive prim known env
      exact ⟨peer', known', records.later clocked (fun heard => by cases heard) lastSeen state⟩
  | ping => exact records.of_frame known clocked rfl (ping_frame watch.node env fun _ _ _ => rfl)
  | adapt elapsedSecs =>
      exact records.of_frame known clocked rfl (adapt_frame watch.node elapsedSecs fun _ _ => rfl)

/-- **The record stays true** in every step that attends to its packet. -/
theorem Faithful.step (faithful : watch.Faithful) {input : Env D × Event}
    (clocked : watch.Clocked input) (attends : watch.Attends prim input) :
    ((watching prim).step watch input).1.Faithful where
  past t k heard := by
    rcases mem_heard.mp heard with before | ⟨rfl, _⟩
    · exact Nat.le_trans (faithful.past t k before) clocked
    · exact Nat.le_refl _
  met k connected := List.mem_append_right _ (mem_connectedIds.mpr connected)
  entry k member := by
    by_cases before : k ∈ watch.met
    · exact faithful.records_of_met clocked attends before
    · rcases List.mem_append.mp member with met | now
      · exact absurd met before
      · exact faithful.records_of_connected clocked before (mem_connectedIds.mp now)

/-- A true record right after the check for timeouts is one of silent peers. -/
theorem Faithful.silenced {env : Env D}
    (faithful : ((watching prim).step watch (env, .keepalive)).1.Faithful) :
    ((watching prim).step watch (env, .keepalive)).1.Silenced := by
  intro k member
  obtain ⟨peer, known, records⟩ := faithful.entry k member
  have silent : peer.state = .disconnected →
      ¬ ((watching prim).step watch (env, .keepalive)).1.HeardWithin k := by
    rintro disconnected ⟨t, heard, within⟩
    rcases records.state with connected | ⟨_, late⟩
    · cases disconnected.symm.trans connected
    · have earlier := records.last t heard
      exact Nat.not_lt_of_le within (Nat.lt_of_lt_of_le late (Nat.sub_le_sub_left earlier _))
  have recent : peer.state = .connected →
      ((watching prim).step watch (env, .keepalive)).1.HeardWithin k := fun connected =>
    ⟨peer.lastSeen, records.heard, recent_of_keepalive known connected⟩
  have either : peer.state = .connected ∨ peer.state = .disconnected :=
    records.state.imp_right And.left
  refine ⟨peer, known, ⟨silent, fun unheard => ?_⟩, fun within => ?_⟩
  · exact either.resolve_left fun connected => unheard (recent connected)
  · exact either.resolve_right fun disconnected => silent disconnected within

/-- **When disconnected means silent.** In every run of a node in which every packet
from a peer that was ever connected refreshes the entry of that peer, and finds it
connected, right after every check for timeouts those of the peers are disconnected
from which nothing was heard within the timeout, and the others are connected. -/
theorem silenced_of_attentive {node : Node D} (starts : node.Starts)
    {inputs : List (Env D × Event)} {env : Env D}
    (clocked : (watching prim).Along Clocked (start node) (inputs ++ [(env, .keepalive)]))
    (attentive : (watching prim).Along (Attends prim) (start node) inputs) :
    ((watching prim).run (start node) (inputs ++ [(env, .keepalive)])).Silenced := by
  obtain ⟨ticking, clocked', _⟩ := (Machine.along_append ..).mp clocked
  have faithful : ((watching prim).run (start node) inputs).Faithful :=
    Machine.invariant (M := watching prim) Faithful
      (fun _ _ faithful admitted => faithful.step admitted.1 admitted.2) (faithful_start starts)
      (Machine.along_and ticking attentive)
  rw [Machine.run_append]
  exact Faithful.silenced (faithful.step clocked' fun _ _ _ received => by cases received)

theorem attends_of_packet {env : Env D} {data : Bytes} {srcAddr : SocketAddr} {packet : Packet}
    (parsed : Packet.parse data = .ok packet)
    (attends : AttendsPacket prim watch env srcAddr packet) :
    Attends prim watch (env, .recv data srcAddr) := by
  intro data' srcAddr' packet' received parsed'
  cases received
  cases parsed.symm.trans parsed'
  exact attends

end Watch

end Node

/-! ## A peer that goes silent -/

namespace Sample

/-- A keepalive of the peer with id 1, sealed with the session context. -/
def beat : Bytes :=
  wires (Node.sealCounted Primitives.transparent
    { host with peerMgr := host.peerMgr.setIdentity 1 session } pktKeepalive [] 0 (addr 0)).2

/-- The host lets a peer in and hears from it once more. -/
def steady : List (Env Unit × Node.Event) :=
  [(env 0 0, .recv join (addr 1)), (env 0 peerTimeout, .recv beat (addr 1))]

/-- The host lets a peer in, which times out and is heard from again. -/
def outage : List (Env Unit × Node.Event) :=
  [(env 0 0, .recv join (addr 1)), (env 0 (peerTimeout + 1), .keepalive),
    (env 0 (peerTimeout + 2), .recv beat (addr 1))]

end Sample

namespace Node

namespace Watch

/-- The peer that is heard in time stays connected. -/
theorem steady_silenced : ((watching Primitives.transparent).run (start Sample.host)
    (Sample.steady ++ [(Sample.env 0 (peerTimeout + 1), .keepalive)])).Silenced := by
  have joined : ∃ packet, Packet.parse Sample.join = .ok packet := ⟨_, rfl⟩
  have heard : ∃ packet, Packet.parse Sample.beat = .ok packet ∧
      AttendsPacket Primitives.transparent ((watching Primitives.transparent).step
        (start Sample.host) (Sample.env 0 0, .recv Sample.join (Sample.addr 1))).1
        (Sample.env 0 peerTimeout) (Sample.addr 1) packet := ⟨_, rfl, by decide +kernel⟩
  obtain ⟨packet, parsed⟩ := joined
  obtain ⟨packet', parsed', attends⟩ := heard
  have unmet : AttendsPacket Primitives.transparent (start Sample.host) (Sample.env 0 0)
      (Sample.addr 1) packet := fun _ member => by cases member
  exact silenced_of_attentive (.host ..) (by decide +kernel)
    ⟨attends_of_packet parsed unmet, attends_of_packet parsed' attends, trivial⟩

/-- **A peer that timed out stays disconnected**, whatever it goes on sending. -/
theorem heard_stays_disconnected :
    ¬ ∀ (inputs : List (Env Unit × Event)) (env : Env Unit),
      (watching Primitives.transparent).Along Clocked (start Sample.host)
        (inputs ++ [(env, .keepalive)]) →
      ((watching Primitives.transparent).run (start Sample.host)
        (inputs ++ [(env, .keepalive)])).Silenced := by
  intro claim
  obtain ⟨peer, known, _, again⟩ := claim Sample.outage (Sample.env 0 (peerTimeout + 3))
    (by decide +kernel) 1 (by decide +kernel)
  have connected : peer.state = .connected :=
    again ⟨peerTimeout + 2, by decide +kernel, by decide⟩
  have disconnected : ¬ ((watching Primitives.transparent).run (start Sample.host)
      (Sample.outage ++ [(Sample.env 0 (peerTimeout + 3), .keepalive)])).node.Connected 1 := by
    decide +kernel
  exact disconnected ⟨peer, known, connected⟩

end Watch

end Node

end VoiceChat
