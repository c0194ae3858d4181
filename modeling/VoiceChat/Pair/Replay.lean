import VoiceChat.Pair
import VoiceChat.Session.Stream

/-!
# Audio that is not a replay

The audio that one node sends to the other, delivered in the order in which it was
sent, each packet at most once. Its counters grow as long as the contexts they are
drawn from are not set up anew, and then the filters of the receiver take in
every packet that opens (`accepted_run`). A KEY_EXCHANGE that arrives twice sets
the context of the peer up anew, and the receiver takes the next packet for a
replay (`fresh_audio_refused`).
-/

set_option autoImplicit false

namespace VoiceChat

/-- Whether the scope is that of one pair of peers. -/
def KeyScope.isPeer : KeyScope → Bool
  | .psk => false
  | .peer => true

theorem KeyScope.isPeer_inj {scope scope' : KeyScope} (same : scope.isPeer = scope'.isPeer) :
    scope = scope' := by
  cases scope with
  | psk =>
      cases scope' with
      | psk => rfl
      | peer => cases same
  | peer =>
      cases scope' with
      | psk => cases same
      | peer => rfl

/-- Two nodes with the audio that the first has sent to the second. -/
structure Line (D : Type) where
  net : Pair D
  /-- The audio, oldest first. -/
  stream : List Emission
  /-- How many of it were delivered or passed over. -/
  mark : ℕ

/-- A step of a line. -/
inductive Move (D : Type) where
  /-- One of the nodes takes a step. -/
  | act (p : Side) (env : Env D) (event : Node.Event)
  /-- The second node receives a packet of the audio. -/
  | audio (env : Env D) (srcAddr : SocketAddr) (i : ℕ)

namespace Introduction

variable {D : Type} (prim : Primitives D) (pair : Introduction D)

/-- The audio that a step adds. -/
def share (net : Pair D) : Side → Env D → Node.Event → List Emission
  | .a, env, .frame opus => (net.node .a).audioFor prim env opus (pair.id .b)
  | _, _, _ => []

/-- The line as a machine. -/
def lineMachine : Machine (Line D) (Move D) (Side × Emission) where
  step line
    | .act p env event =>
        let (net, out) := (pairMachine prim).step line.net (p, env, event)
        ({ line with net := net, stream := line.stream ++ pair.share prim line.net p env event },
          out)
    | .audio env srcAddr i =>
      match line.stream[i]? with
      | none => (line, [])
      | some e =>
        let (net, out) := (pairMachine prim).step line.net (.b, env, .recv e.wire srcAddr)
        ({ line with net := net, mark := i + 1 }, out)

/-- Nothing was sent yet. -/
def line : Line D := ⟨pair.start, [], 0⟩

/-- The network delivers the audio in order, each packet at most once. Other audio
in the name of the first node does not open at the second; key exchanges are
authentic and identities are kept. -/
def Orderly (line : Line D) : Move D → Prop
  | .act p env event =>
      pair.Authentic prim line.net (p, env, event) ∧ pair.IdentityKept prim line.net (p, env, event) ∧
        (p = .b → ∀ data srcAddr packet, event = .recv data srcAddr →
          Packet.parse data = .ok packet → packet.header.pktType = pktAudio →
          packet.header.peerId = pair.id .a →
          ∀ opened, (line.net.node .b).openAudio prim packet ≠ .ok opened)
  | .audio _ _ i => line.mark ≤ i

/-- The first node sets up no context anew from which the audio was numbered: the
session context by a peer list, that of the second node by its KEY_EXCHANGE. -/
def Unrestarted (line : Line D) : Move D → Prop
  | .act .a _ (.recv data _) =>
      (∀ identity, (line.net.node .a).adopts prim data = some identity →
        ∀ e ∈ line.stream, e.scope ≠ .psk) ∧
      ∀ packet, Packet.parse data = .ok packet → packet.header.pktType = pktKeyExchange →
        packet.header.peerId = pair.id .b →
        ∀ derivedKey, (line.net.node .a).openKeyExchange prim packet = .ok derivedKey →
          ∀ e ∈ line.stream, e.scope ≠ .peer
  | _ => True

/-- If the step delivers audio which opens, the filter that is asked takes it
in. -/
def Accepted (line : Line D) : Move D → Prop
  | .audio _ _ i => ∀ e, line.stream[i]? = some e → ∀ packet plaintext usedPeerCtx peer,
      Packet.parse e.wire = .ok packet →
      (line.net.node .b).openAudio prim packet = .ok (plaintext, usedPeerCtx) →
      (line.net.node .b).getPeer packet.header.peerId = some peer →
      ((peer.filterFor usedPeerCtx).checkAndAccept packet.header.counter).1 = true
  | .act .. => True

/-- The key that audio is sealed with. -/
def keyFor : KeyScope → Except Error Key
  | .psk => .ok pair.key
  | .peer => pair.pairKey prim

/-- What the second node has heard: its filters for the first are behind whatever
is still to come, and those of a scope that was never used are new. -/
def Heard (line : Line D) : Prop :=
  ∀ peer, (line.net.node .b).getPeer (pair.id .a) = some peer → ∀ scope : KeyScope,
    ((∀ e ∈ line.stream, e.scope ≠ scope) → peer.filterFor scope.isPeer = ReplayFilter.new) ∧
      (peer.filterFor scope.isPeer).Below ((line.net.node .a).counterOf (pair.id .b) scope) ∧
      ∀ e ∈ line.stream.drop line.mark, e.scope = scope →
        (peer.filterFor scope.isPeer).Below e.header.counter.toNat

/-- What holds of a line. -/
structure InStep (line : Line D) : Prop where
  parties : ∀ p, pair.Party prim p (line.net.node p) (line.net.sent p)
  header : ∀ e ∈ line.stream, e.header.pktType = pktAudio ∧ e.header.peerId = pair.id .a
  sealedWith : ∀ e ∈ line.stream, ∃ key, pair.keyFor prim e.scope = .ok key ∧
    e.SealedWith prim.aead (CryptoContext.new key pair.sessionId)
  below : ∀ e ∈ line.stream,
    e.header.counter.toNat < (line.net.node .a).counterOf (pair.id .b) e.scope
  ordered : line.stream.Pairwise fun first second => first.scope = second.scope →
    first.header.counter.toNat < second.header.counter.toNat
  heard : pair.Heard line

variable {prim pair}

/-! ## Steps of the nodes -/

/-- The context of the audio has the key of its scope. -/
theorem Party.audioContext {node : Node D} {sent : List Emission}
    (party : pair.Party prim .a node sent) {ctx : CryptoContext} {scope : KeyScope}
    (context : node.AudioContext (pair.id .b) ctx scope) :
    pair.keyFor prim scope = .ok ctx.key ∧ ctx.sessionId = pair.sessionId := by
  cases scope with
  | psk =>
      obtain rfl := context
      exact ⟨congrArg Except.ok party.ctxKey.symm, party.ctxSessionId⟩
  | peer =>
      obtain ⟨peer, known, crypto⟩ := context
      obtain ⟨peer', known', agreed⟩ := party.entry
      cases known.symm.trans known'
      exact agreed.context crypto

/-- The line goes on when the first node sends more audio and its counters move
on, as far as they were used. -/
theorem InStep.append {line : Line D} (held : pair.InStep prim line) {net : Pair D}
    (parties : ∀ p, pair.Party prim p (net.node p) (net.sent p))
    (silent : net.node .b = line.net.node .b)
    (advances : ∀ scope, (∃ e ∈ line.stream, e.scope = scope) →
      (line.net.node .a).counterOf (pair.id .b) scope ≤ (net.node .a).counterOf (pair.id .b) scope)
    {new : List Emission}
    (header : ∀ e ∈ new, e.header.pktType = pktAudio ∧ e.header.peerId = pair.id .a)
    (sealedWith : ∀ e ∈ new, ∃ key, pair.keyFor prim e.scope = .ok key ∧
      e.SealedWith prim.aead (CryptoContext.new key pair.sessionId))
    (above : ∀ e ∈ new,
      (line.net.node .a).counterOf (pair.id .b) e.scope ≤ e.header.counter.toNat)
    (below : ∀ e ∈ new, e.header.counter.toNat < (net.node .a).counterOf (pair.id .b) e.scope)
    (ordered : new.Pairwise fun first second => first.scope = second.scope →
      first.header.counter.toNat < second.header.counter.toNat) :
    pair.InStep prim { line with net := net, stream := line.stream ++ new } where
  parties := parties
  header e member := (List.mem_append.mp member).elim (held.header e) (header e)
  sealedWith e member := (List.mem_append.mp member).elim (held.sealedWith e) (sealedWith e)
  below e member := by
    rcases List.mem_append.mp member with old | fresh
    · exact Nat.lt_of_lt_of_le (held.below e old) (advances e.scope ⟨e, old, rfl⟩)
    · exact below e fresh
  ordered := by
    refine List.pairwise_append.mpr ⟨held.ordered, ordered, ?_⟩
    intro e old e' fresh same
    have between := above e' fresh
    rw [← same] at between
    exact Nat.lt_of_lt_of_le (held.below e old) between
  heard := by
    intro peer known scope
    change (net.node .b).getPeer (pair.id .a) = some peer at known
    rw [silent] at known
    obtain ⟨untouched, behind, pending⟩ := held.heard peer known scope
    refine ⟨fun unused => ?_, ?_, ?_⟩
    · exact untouched fun e member => unused e (List.mem_append_left _ member)
    · by_cases used : ∃ e ∈ line.stream, e.scope = scope
      · exact behind.mono (advances scope used)
      · rw [untouched fun e member same => used ⟨e, member, same⟩]
        exact ReplayFilter.below_new _
    · intro e member same
      change e ∈ (line.stream ++ new).drop line.mark at member
      rw [List.drop_append] at member
      rcases List.mem_append.mp member with old | fresh
      · exact pending e old same
      · subst same
        exact behind.mono (above e (List.mem_of_mem_drop fresh))

/-- The second node hears nothing in a step that opens no audio of the first. -/
theorem Heard.of_step {line : Line D} (heard : pair.Heard line)
    (entry : ∃ peer, (line.net.node .b).getPeer (pair.id .a) = some peer) {env : Env D}
    {event : Node.Event}
    (unheard : ∀ data srcAddr packet, event = .recv data srcAddr →
      Packet.parse data = .ok packet → packet.header.pktType = pktAudio →
      packet.header.peerId = pair.id .a →
      ∀ opened, (line.net.node .b).openAudio prim packet ≠ .ok opened) :
    pair.Heard { line with net := ((pairMachine prim).step line.net (.b, env, event)).1 } := by
  intro peer' known' scope
  obtain ⟨peer, known⟩ := entry
  obtain ⟨peer'', there, same⟩ :=
    Node.step_filters prim (line.net.node .b) env event known unheard
  have after : ((pairMachine prim).step line.net (.b, env, event)).1.node .b =
      (Node.step prim (line.net.node .b) env event).1 := by
    rw [pairMachine, Network.step_node_self]
    rfl
  have sender : ((pairMachine prim).step line.net (.b, env, event)).1.node .a =
      line.net.node .a := by
    rw [pairMachine, Network.step_node_of_ne _ _ (by decide : Side.a ≠ .b)]
  change (((pairMachine prim).step line.net (.b, env, event)).1.node .b).getPeer _ = _ at known'
  rw [after, there] at known'
  cases known'
  have filter := Node.filterFor_of_filters same scope.isPeer
  obtain ⟨untouched, behind, pending⟩ := heard peer known scope
  refine ⟨fun unused => filter.trans (untouched unused), ?_, fun e member matching => ?_⟩
  · change (peer'.filterFor scope.isPeer).Below
      ((((pairMachine prim).step line.net (.b, env, event)).1.node .a).counterOf _ scope)
    rw [filter, sender]
    exact behind
  · rw [filter]
    exact pending e member matching

/-- **What a step of a node preserves.** -/
theorem InStep.act {line : Line D} (held : pair.InStep prim line) (correct : prim.aead.Correct)
    (commutes : KeyExchange.Commutes prim) {p : Side} {env : Env D} {event : Node.Event}
    (orderly : pair.Orderly prim line (.act p env event))
    (unrestarted : pair.Unrestarted prim line (.act p env event)) :
    pair.InStep prim ((pair.lineMachine prim).step line (.act p env event)).1 := by
  obtain ⟨authentic, kept, unheard⟩ := orderly
  have parties := party_step correct commutes held.parties authentic kept
  cases p with
  | a =>
      have receiver : ((pairMachine prim).step line.net (.a, env, event)).1.node .b =
          line.net.node .b := by
        rw [pairMachine, Network.step_node_of_ne _ _ (by decide : Side.b ≠ .a)]
      have sender : ((pairMachine prim).step line.net (.a, env, event)).1.node .a =
          (Node.step prim (line.net.node .a) env event).1 := by
        rw [pairMachine, Network.step_node_self]
        rfl
      by_cases sends : Node.SendsFrame event
      · obtain ⟨opus, rfl⟩ := sends
        have streams := Node.audioFor_streams prim (line.net.node .a) env opus (pair.id .b)
        rw [← sender] at streams
        refine held.append parties receiver (fun scope _ => streams.advances scope) ?_ ?_
          streams.above streams.below streams.ordered
        · intro e member
          obtain ⟨type, peerId⟩ := streams.header e member
          exact ⟨type, peerId.trans (held.parties .a).localId⟩
        · intro e member
          obtain ⟨ctx, context, sealedWith⟩ := streams.sealedWith e member
          obtain ⟨key, sessionId⟩ := (held.parties .a).audioContext context
          exact ⟨ctx.key, key, sealedWith.congr rfl sessionId.symm⟩
      · have none : pair.share prim line.net .a env event = [] := by
          cases event with
          | frame opus => exact absurd ⟨opus, rfl⟩ sends
          | _ => rfl
        change pair.InStep prim { line with
          net := ((pairMachine prim).step line.net (.a, env, event)).1
          stream := line.stream ++ pair.share prim line.net .a env event }
        rw [none]
        refine held.append parties receiver ?_ (fun _ member => absurd member List.not_mem_nil)
          (fun _ member => absurd member List.not_mem_nil)
          (fun _ member => absurd member List.not_mem_nil)
          (fun _ member => absurd member List.not_mem_nil) List.Pairwise.nil
        rintro scope ⟨e, member, rfl⟩
        rw [sender]
        cases scope : e.scope with
        | psk =>
            refine (Node.step_keeps env fun data srcAddr received => ?_).counter
            subst received
            exact Option.eq_none_iff_forall_ne_some.mpr fun identity adopted =>
              unrestarted.1 identity adopted e member scope
        | peer =>
            obtain ⟨peer, known, _⟩ := (held.parties .a).entry
            refine Node.step_peerCounter prim _ env event known ?_
            rintro data srcAddr packet rfl parsed type name derivedKey opened
            exact unrestarted.2 packet parsed type name derivedKey opened e member scope
  | b =>
      have sender : ((pairMachine prim).step line.net (.b, env, event)).1.node .a =
          line.net.node .a := by
        rw [pairMachine, Network.step_node_of_ne _ _ (by decide : Side.a ≠ .b)]
      obtain ⟨peer, known, _⟩ := (held.parties .b).entry
      change pair.InStep prim { line with
        net := ((pairMachine prim).step line.net (.b, env, event)).1
        stream := line.stream ++ [] }
      rw [List.append_nil]
      refine ⟨parties, held.header, held.sealedWith, ?_, held.ordered,
        held.heard.of_step ⟨peer, known⟩ (unheard rfl)⟩
      change ∀ e ∈ line.stream, e.header.counter.toNat <
        (((pairMachine prim).step line.net (.b, env, event)).1.node .a).counterOf _ e.scope
      rw [sender]
      exact held.below

/-! ## Delivered audio -/

/-- The receiver opens audio with the context that sealed it. -/
theorem InStep.openAudio {line : Line D} (held : pair.InStep prim line)
    (committing : prim.aead.KeyCommitting) (separate : pair.pairKey prim ≠ .ok pair.key)
    {e : Emission} (member : e ∈ line.stream) {packet : Packet}
    (parsed : Packet.parse e.wire = .ok packet) {plaintext : Bytes} {usedPeerCtx : Bool}
    (opened : (line.net.node .b).openAudio prim packet = .ok (plaintext, usedPeerCtx)) :
    usedPeerCtx = e.scope.isPeer := by
  obtain ⟨key, keyed, sealedWith⟩ := held.sealedWith e member
  have name : packet.header.peerId = pair.id .a := by
    rw [sealedWith.header_of_parse parsed]
    exact (held.header e member).2
  obtain ⟨ctx, success, ⟨rfl, peer, known, crypto⟩ | ⟨rfl, rfl⟩⟩ := Node.openAudio_eq_ok opened
  · cases scope : e.scope with
    | peer => rfl
    | psk =>
        obtain ⟨peer', known', agreed⟩ := (held.parties .b).entry
        rw [name] at known
        cases known.symm.trans known'
        obtain ⟨derived, _⟩ := agreed.context crypto
        rw [scope] at keyed
        cases keyed
        have different : ctx.key ≠ pair.key := fun same => separate (same ▸ derived)
        rw [sealedWith.not_opens committing different parsed] at success
        cases success
  · cases scope : e.scope with
    | psk => rfl
    | peer =>
        rw [scope] at keyed
        have different : (line.net.node .b).cryptoCtx.key ≠ key := by
          intro same
          rw [(held.parties .b).ctxKey] at same
          exact separate (same ▸ keyed)
        rw [sealedWith.not_opens committing different parsed] at success
        cases success

/-- The audio after a packet of its scope has a larger counter. -/
theorem InStep.lt_of_mem_drop {line : Line D} (held : pair.InStep prim line) {i : ℕ}
    {e e' : Emission} (here : line.stream[i]? = some e) (later : e' ∈ line.stream.drop (i + 1))
    (same : e.scope = e'.scope) : e.header.counter.toNat < e'.header.counter.toNat := by
  obtain ⟨inside, rfl⟩ := List.getElem?_eq_some_iff.mp here
  have ordered := held.ordered.sublist (List.drop_sublist i line.stream)
  rw [List.drop_eq_getElem_cons inside] at ordered
  exact (List.pairwise_cons.mp ordered).1 e' later same

/-- What is delivered in order is still to come. -/
theorem mem_drop_of_getElem? {stream : List Emission} {mark i : ℕ} {e : Emission}
    (here : stream[i]? = some e) (inOrder : mark ≤ i) : e ∈ stream.drop mark := by
  refine List.mem_of_getElem? (i := i - mark) ?_
  rw [List.getElem?_drop, Nat.add_sub_cancel' inOrder]
  exact here

/-- **Delivered audio is taken in.** -/
theorem InStep.accepted {line : Line D} (held : pair.InStep prim line)
    (committing : prim.aead.KeyCommitting) (separate : pair.pairKey prim ≠ .ok pair.key)
    {move : Move D} (orderly : pair.Orderly prim line move) : Accepted prim line move := by
  cases move with
  | act p env event => trivial
  | audio env srcAddr i =>
      intro e here packet plaintext usedPeerCtx peer parsed opened known
      have member : e ∈ line.stream := List.mem_of_getElem? here
      have used := held.openAudio committing separate member parsed opened
      obtain ⟨_, _, sealedWith⟩ := held.sealedWith e member
      rw [sealedWith.header_of_parse parsed] at known ⊢
      rw [(held.header e member).2] at known
      obtain ⟨_, _, pending⟩ := held.heard peer known e.scope
      rw [used]
      exact (ReplayFilter.checkAndAccept_of_below
        (pending e (mem_drop_of_getElem? here orderly) rfl)).1

/-- What the second node has heard once audio in its turn has been through its
filter. -/
theorem Heard.of_audio {line : Line D} (held : pair.InStep prim line)
    (committing : prim.aead.KeyCommitting) (separate : pair.pairKey prim ≠ .ok pair.key)
    {env : Env D} {i : ℕ} {e : Emission} (here : line.stream[i]? = some e)
    (inOrder : line.mark ≤ i) {packet : Packet} (parsed : Packet.parse e.wire = .ok packet)
    {net : Pair D} (sender : net.node .a = line.net.node .a)
    (receiver : net.node .b = (Node.handleAudio prim (line.net.node .b) env packet).node) :
    pair.Heard { line with net := net, mark := i + 1 } := by
  have member : e ∈ line.stream := List.mem_of_getElem? here
  have later : ∀ e' ∈ line.stream.drop (i + 1), e' ∈ line.stream.drop line.mark :=
    fun e' inside =>
      (List.drop_sublist_drop_left line.stream (Nat.le_succ_of_le inOrder)).subset inside
  obtain ⟨_, _, sealedWith⟩ := held.sealedWith e member
  have header := sealedWith.header_of_parse parsed
  obtain ⟨peer, known, _⟩ := (held.parties .b).entry
  change (line.net.node .b).getPeer (pair.id .a) = some peer at known
  intro peer' known' scope
  change (net.node .b).getPeer (pair.id .a) = some peer' at known'
  change _ ∧ (peer'.filterFor scope.isPeer).Below ((net.node .a).counterOf _ scope) ∧ _
  rw [sender]
  rw [receiver] at known'
  obtain ⟨untouched, behind, pending⟩ := held.heard peer known scope
  cases opened : (line.net.node .b).openAudio prim packet with
  | error refused =>
      rw [Node.handleAudio, opened] at known'
      cases known.symm.trans known'
      exact ⟨untouched, behind, fun e' inside => pending e' (later e' inside)⟩
  | ok heard =>
      obtain ⟨plaintext, usedPeerCtx⟩ := heard
      have used := held.openAudio committing separate member parsed opened
      have name : packet.header.peerId = pair.id .a := by
        rw [header]
        exact (held.header e member).2
      rw [Node.handleAudio_getPeer opened env (name ▸ known), if_pos name.symm] at known'
      cases known'
      rw [Node.acceptAudio_filterFor]
      by_cases same : e.scope = scope
      · -- the filter that was asked is behind everything after this packet
        subst same
        rw [if_pos used.symm, used, header]
        have passed := (ReplayFilter.checkAndAccept_of_below
          (pending e (mem_drop_of_getElem? here inOrder) rfl)).2
        refine ⟨fun unused => absurd rfl (unused e member), ?_, ?_⟩
        · exact passed.mono (held.below e member)
        · intro e' inside matching
          exact passed.mono (held.lt_of_mem_drop here inside matching.symm)
      · have other : scope.isPeer ≠ usedPeerCtx := by
          intro alike
          rw [used] at alike
          exact same (KeyScope.isPeer_inj alike.symm)
        rw [if_neg other]
        exact ⟨untouched, behind, fun e' inside => pending e' (later e' inside)⟩

/-- **What delivered audio preserves.** -/
theorem InStep.audio {line : Line D} (held : pair.InStep prim line) (correct : prim.aead.Correct)
    (committing : prim.aead.KeyCommitting) (commutes : KeyExchange.Commutes prim)
    (separate : pair.pairKey prim ≠ .ok pair.key) {env : Env D} {srcAddr : SocketAddr} {i : ℕ}
    (inOrder : line.mark ≤ i) :
    pair.InStep prim ((pair.lineMachine prim).step line (.audio env srcAddr i)).1 := by
  cases here : line.stream[i]? with
  | none =>
      have idle : ((pair.lineMachine prim).step line (.audio env srcAddr i)).1 = line := by
        rw [lineMachine]
        dsimp only
        rw [here]
      rw [idle]
      exact held
  | some e =>
      have member : e ∈ line.stream := List.mem_of_getElem? here
      obtain ⟨type, _⟩ := held.header e member
      obtain ⟨_, _, sealedWith⟩ := held.sealedWith e member
      obtain ⟨ciphertext, _, wire⟩ := sealedWith.wire
      have parsed : Packet.parse e.wire = .ok ⟨e.header, e.header.toBytes, ciphertext⟩ := by
        rw [wire, Packet.parse_buildWirePacket]
      have delivered : ((pair.lineMachine prim).step line (.audio env srcAddr i)).1 =
          { line with
            net := ((pairMachine prim).step line.net (.b, env, .recv e.wire srcAddr)).1
            mark := i + 1 } := by
        rw [lineMachine]
        dsimp only
        rw [here]
      have sender : ((pairMachine prim).step line.net (.b, env, .recv e.wire srcAddr)).1.node .a =
          line.net.node .a := by
        rw [pairMachine, Network.step_node_of_ne _ _ (by decide : Side.a ≠ .b)]
      have receiver :
          ((pairMachine prim).step line.net (.b, env, .recv e.wire srcAddr)).1.node .b =
            (Node.handleAudio prim (line.net.node .b) env
              ⟨e.header, e.header.toBytes, ciphertext⟩).node := by
        rw [pairMachine, Network.step_node_self]
        change (Node.handleIncoming prim (line.net.node .b) env e.wire srcAddr).node = _
        rw [Node.handleIncoming_eq prim parsed, Node.handlePacket_audio prim type]
      rw [delivered]
      refine ⟨party_step correct commutes held.parties ?_ ?_, held.header, held.sealedWith, ?_,
        held.ordered, Heard.of_audio held committing separate here inOrder parsed sender receiver⟩
      · intro data src packet _ received parsed' exchange
        cases received
        cases parsed.symm.trans parsed'
        exact absurd (type.symm.trans exchange) (by decide)
      · intro data src received myId sessionId adopted
        cases received
        rw [Node.adopts, parsed] at adopted
        dsimp only at adopted
        rw [if_neg (by rw [type]; decide)] at adopted
        cases adopted
      · change ∀ e' ∈ line.stream, e'.header.counter.toNat <
          (((pairMachine prim).step line.net (.b, env, .recv e.wire srcAddr)).1.node .a).counterOf
            _ e'.scope
        rw [sender]
        exact held.below

/-- **Fresh audio is not taken for a replay.** In every run of the two nodes in
which the audio of the first reaches the second in order, each packet at most
once, and in which the first sets up no context anew once it has numbered audio
for the second with it, the filter takes in all the audio that opens. -/
theorem accepted_run (pair : Introduction D) (correct : prim.aead.Correct)
    (committing : prim.aead.KeyCommitting) (commutes : KeyExchange.Commutes prim)
    (separate : pair.pairKey prim ≠ .ok pair.key)
    (unheard : ∀ peer, (pair.node .b).getPeer (pair.id .a) = some peer →
      Node.filters peer = (ReplayFilter.new, ReplayFilter.new))
    (moves : List (Move D))
    (orderly : (pair.lineMachine prim).Along (pair.Orderly prim) pair.line moves)
    (unrestarted : (pair.lineMachine prim).Along (pair.Unrestarted prim) pair.line moves) :
    (pair.lineMachine prim).Along (Accepted prim) pair.line moves := by
  refine Machine.along_of_invariant (pair.InStep prim) ?_ ?_ ?_
    (Machine.along_and orderly unrestarted)
  · rintro line (⟨p, env, event⟩ | ⟨env, srcAddr, i⟩) held ⟨orderly, unrestarted⟩
    · exact held.act correct commutes orderly unrestarted
    · exact held.audio correct committing commutes separate orderly
  · rintro line move held ⟨orderly, _⟩
    exact held.accepted committing separate orderly
  · refine ⟨(party_start ·), fun _ member => absurd member List.not_mem_nil,
      fun _ member => absurd member List.not_mem_nil,
      fun _ member => absurd member List.not_mem_nil, List.Pairwise.nil, ?_⟩
    intro peer known scope
    have new : peer.filterFor scope.isPeer = ReplayFilter.new := by
      obtain ⟨shared, own⟩ := Prod.mk.inj (unheard peer known)
      cases scope with
      | psk => exact shared
      | peer => exact own
    rw [new]
    exact ⟨fun _ => rfl, ReplayFilter.below_new _, fun _ _ _ => ReplayFilter.below_new _⟩

/-! ## A line to compute with -/

/-- What the filter says that is asked about a packet of the audio, if one is. -/
def verdict (prim : Primitives D) (line : Line D) (i : ℕ) : Option Bool :=
  line.stream[i]?.bind fun e => (Packet.parse e.wire).toOption.bind fun packet =>
    ((line.net.node .b).openAudio prim packet).toOption.bind fun opened =>
      ((line.net.node .b).getPeer packet.header.peerId).map fun peer =>
        ((peer.filterFor opened.2).checkAndAccept packet.header.counter).1

theorem eq_ok_of_toOption {ε α : Type} {result : Except ε α} {a : α}
    (found : result.toOption = some a) : result = .ok a := by
  cases result with
  | error e => cases found
  | ok a' => exact congrArg Except.ok (Option.some.inj found)

theorem Accepted.verdict {line : Line D} {env : Env D} {srcAddr : SocketAddr} {i : ℕ}
    (accepted : Accepted prim line (.audio env srcAddr i)) :
    verdict prim line i ≠ some false := by
  intro refused
  obtain ⟨e, here, refused⟩ := Option.bind_eq_some_iff.mp refused
  obtain ⟨packet, parsed, refused⟩ := Option.bind_eq_some_iff.mp refused
  obtain ⟨⟨plaintext, usedPeerCtx⟩, opened, refused⟩ := Option.bind_eq_some_iff.mp refused
  obtain ⟨peer, known, refused⟩ := Option.map_eq_some_iff.mp refused
  have taken := accepted e here packet plaintext usedPeerCtx peer (eq_ok_of_toOption parsed)
    (eq_ok_of_toOption opened) known
  exact absurd (taken.symm.trans refused) (by decide)

/-- A step that receives nothing. -/
theorem orderly_of_timer (line : Line Unit) (p : Side) (now : Env Unit) {event : Node.Event}
    (timer : ∀ data srcAddr, event ≠ .recv data srcAddr) :
    Sample.pair.Orderly Primitives.transparent line (.act p now event) := by
  obtain ⟨authentic, kept⟩ := Sample.honest_of_timer line.net p now timer
  exact ⟨authentic, kept, fun _ data srcAddr _ received => absurd received (timer data srcAddr)⟩

/-- A datagram on record is received, which is neither a peer list nor audio. -/
theorem orderly_of_sent (line : Line Unit) (p : Side) (now : Env Unit) (srcAddr : SocketAddr)
    {data : Bytes} (sent : ∃ e ∈ line.net.sent p.other, data = e.wire)
    (unlisted : (line.net.node p).adopts Primitives.transparent data = none)
    (other : (Packet.parse data).toOption.map (fun packet => packet.header.pktType) ≠
      some pktAudio) :
    Sample.pair.Orderly Primitives.transparent line (.act p now (.recv data srcAddr)) := by
  obtain ⟨authentic, kept⟩ := Sample.honest_of_sent line.net p now srcAddr sent unlisted
  refine ⟨authentic, kept, fun _ data' srcAddr' packet received parsed type => ?_⟩
  cases received
  rw [parsed] at other
  exact absurd (congrArg some type) other

/-- The keys are exchanged, and one frame is sent and heard. -/
def firstFrame : List (Move Unit) :=
  [.act .a (Sample.env 0 1) .ping,
    .act .b (Sample.env 1 2) (.recv (Sample.exchange .a) (Sample.addr 0)),
    .act .a (Sample.env 0 3) (.recv (Sample.exchange .b) (Sample.addr 1)),
    .act .a (Sample.env 0 4) (.frame [1]), .audio (Sample.env 1 5) (Sample.addr 0) 0]

theorem orderly_firstFrame :
    (Sample.pair.lineMachine Primitives.transparent).Along
      (Sample.pair.Orderly Primitives.transparent) Sample.pair.line firstFrame := by
  refine ⟨?_, ?_, ?_, ?_, ?_, trivial⟩
  · exact orderly_of_timer _ _ _ fun _ _ => nofun
  · exact orderly_of_sent _ _ _ _ (by decide +kernel) (by decide +kernel) (by decide +kernel)
  · exact orderly_of_sent _ _ _ _ (by decide +kernel) (by decide +kernel) (by decide +kernel)
  · exact orderly_of_timer _ _ _ fun _ _ => nofun
  · exact Nat.le_refl 0

/-- A frame is sent and heard before the keys are exchanged, and two frames after the
KEY_EXCHANGE of the second node has come twice, the first of which is lost. -/
def framesAround : List (Move Unit) :=
  [.act .a (Sample.env 0 1) (.frame [1]), .audio (Sample.env 1 2) (Sample.addr 0) 0,
    .act .a (Sample.env 0 3) .ping,
    .act .b (Sample.env 1 4) (.recv (Sample.exchange .a) (Sample.addr 0)),
    .act .a (Sample.env 0 5) (.recv (Sample.exchange .b) (Sample.addr 1)),
    .act .a (Sample.env 0 6) (.recv (Sample.exchange .b) (Sample.addr 1)),
    .act .a (Sample.env 0 7) (.frame [2]), .act .a (Sample.env 0 8) (.frame [3]),
    .audio (Sample.env 1 9) (Sample.addr 0) 2]

theorem orderly_framesAround :
    (Sample.pair.lineMachine Primitives.transparent).Along
      (Sample.pair.Orderly Primitives.transparent) Sample.pair.line framesAround := by
  refine ⟨?_, ?_, ?_, ?_, ?_, ?_, ?_, ?_, ?_, trivial⟩
  · exact orderly_of_timer _ _ _ fun _ _ received => by cases received
  · exact Nat.le_refl 0
  · exact orderly_of_timer _ _ _ fun _ _ received => by cases received
  · exact orderly_of_sent _ _ _ _ (by decide +kernel) (by decide +kernel) (by decide +kernel)
  · exact orderly_of_sent _ _ _ _ (by decide +kernel) (by decide +kernel) (by decide +kernel)
  · exact orderly_of_sent _ _ _ _ (by decide +kernel) (by decide +kernel) (by decide +kernel)
  · exact orderly_of_timer _ _ _ fun _ _ received => by cases received
  · exact orderly_of_timer _ _ _ fun _ _ received => by cases received
  · change Line.mark _ ≤ 2
    decide +kernel

/-- A KEY_EXCHANGE that comes when no audio was numbered under the new key restarts nothing. -/
theorem unrestarted_of_unkeyed {line : Line Unit} {now : Env Unit} {data : Bytes}
    {srcAddr : SocketAddr} (unlisted : (line.net.node .a).adopts Primitives.transparent data = none)
    (unkeyed : ∀ e ∈ line.stream, e.scope ≠ .peer) :
    Sample.pair.Unrestarted Primitives.transparent line (.act .a now (.recv data srcAddr)) := by
  refine ⟨fun identity adopted => ?_, fun _ _ _ _ _ _ => unkeyed⟩
  rw [unlisted] at adopted
  cases adopted

/-- All frames that arrive are heard. -/
theorem accepted_framesAround :
    (Sample.pair.lineMachine Primitives.transparent).Along (Accepted Primitives.transparent)
      Sample.pair.line framesAround := by
  refine accepted_run Sample.pair Aead.transparent_correct Aead.transparent_keyCommitting
    Primitives.transparent_commutes (by decide +kernel) ?_ framesAround orderly_framesAround
    ⟨trivial, trivial, trivial, trivial, ?_, ?_, trivial, trivial, trivial, trivial⟩
  · intro peer known
    have new : ((Sample.pair.node .b).getPeer (Sample.pair.id .a)).map Node.filters =
        some (ReplayFilter.new, ReplayFilter.new) := by decide +kernel
    rw [known] at new
    exact Option.some.inj new
  · exact unrestarted_of_unkeyed (by decide +kernel) (by decide +kernel)
  · exact unrestarted_of_unkeyed (by decide +kernel) (by decide +kernel)

/-- **Fresh audio is taken for a replay** once a KEY_EXCHANGE has arrived twice: the
sender counts from zero again, and the receiver's filter is never reset. -/
theorem fresh_audio_refused :
    ¬ ∀ moves : List (Move Unit),
      (Sample.pair.lineMachine Primitives.transparent).Along
        (Sample.pair.Orderly Primitives.transparent) Sample.pair.line moves →
      (Sample.pair.lineMachine Primitives.transparent).Along (Accepted Primitives.transparent)
        Sample.pair.line moves := by
  intro claim
  have accepted := claim (firstFrame ++
    [.act .a (Sample.env 0 6) (.recv (Sample.exchange .b) (Sample.addr 1)),
      .act .a (Sample.env 0 7) (.frame [2]), .audio (Sample.env 1 8) (Sample.addr 0) 1])
    ((Machine.along_append _ _ _ _ _).mpr ⟨orderly_firstFrame, ?_, ?_, ?_, trivial⟩)
  · have last := ((Machine.along_append _ _ _ _ _).mp accepted).2.2.2.1
    exact absurd last.verdict (by decide +kernel)
  · exact orderly_of_sent _ _ _ _ (by decide +kernel) (by decide +kernel) (by decide +kernel)
  · exact orderly_of_timer _ _ _ fun _ _ => nofun
  · change Line.mark _ ≤ 1
    decide +kernel

end Introduction

end VoiceChat
