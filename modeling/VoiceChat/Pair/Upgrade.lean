import VoiceChat.Pair

/-!
# Upgrading to the key of the pair

A node sends its audio under the key of the pair once it has sent its own
KEY_EXCHANGE and received the other's. That its own one has arrived is not among
the conditions: it is sent once and never acknowledged. `upgraded_iff` says
exactly which runs never strand the receiver: those in which the other node has
a key already whenever its KEY_EXCHANGE is handled.
-/

set_option autoImplicit false

namespace VoiceChat

namespace Introduction

variable {D : Type} (prim : Primitives D) (pair : Introduction D)

/-- When the first node would send audio under a per-peer key, the second has a
context with this key to try. -/
def Upgraded (net : Pair D) : Prop :=
  ∀ peer ctx, (net.node .a).getPeer (pair.id .b) = some peer → peer.sendContext = some ctx →
    ∃ peer' ctx', (net.node .b).getPeer (pair.id .a) = some peer' ∧
      peer'.recvContext = some ctx' ∧ ctx'.key = ctx.key ∧ ctx'.sessionId = ctx.sessionId

/-- The node has a context for the other one. -/
def Keyed (p : Side) (node : Node D) : Prop :=
  ∃ peer, node.getPeer (pair.id p.other) = some peer ∧ peer.peerCrypto.isSome

/-- A KEY_EXCHANGE of the second node opens at the first only when the second has
a context for the first. -/
def Met (net : Pair D) (input : Side × Env D × Node.Event) : Prop :=
  input.1 = .a → ∀ data srcAddr packet derivedKey, input.2.2 = .recv data srcAddr →
    Packet.parse data = .ok packet → packet.header.pktType = pktKeyExchange →
    packet.header.peerId = pair.id .b →
    (net.node .a).openKeyExchange prim packet = .ok derivedKey → pair.Keyed .b (net.node .b)

variable {prim pair}

/-- Where the first node has a context to send with, the second has one to receive
with. -/
theorem Upgraded.isSome {net : Pair D} (upgraded : pair.Upgraded net)
    (sending : (((net.node .a).getPeer (pair.id .b)).bind RemotePeer.sendContext).isSome) :
    (((net.node .b).getPeer (pair.id .a)).bind RemotePeer.recvContext).isSome := by
  obtain ⟨ctx, found⟩ := Option.isSome_iff_exists.mp sending
  obtain ⟨peer, known, complete⟩ := Option.bind_eq_some_iff.mp found
  obtain ⟨peer', ctx', known', context, _⟩ := upgraded peer ctx known complete
  rw [known', Option.bind_some, context]
  rfl

theorem Keyed.of_bind {p : Side} {node : Node D}
    (found : ((node.getPeer (pair.id p.other)).bind RemotePeer.peerCrypto).isSome) :
    pair.Keyed p node := by
  obtain ⟨ctx, found⟩ := Option.isSome_iff_exists.mp found
  obtain ⟨peer, known, context⟩ := Option.bind_eq_some_iff.mp found
  exact ⟨peer, known, Option.isSome_of_eq_some context⟩

/-- A node that has a context keeps one. -/
theorem Keyed.step {p : Side} {node : Node D} (keyed : pair.Keyed p node) (env : Env D)
    (event : Node.Event) : pair.Keyed p (node.step prim env event).1 := by
  obtain ⟨peer, known, holds⟩ := keyed
  have stays : ∀ peer' : RemotePeer D, (Node.secret peer').2.isSome →
      (node.step prim env event).1.getPeer (pair.id p.other) = some peer' →
      pair.Keyed p (node.step prim env event).1 := by
    intro peer' context known'
    rw [Node.secret, Option.isSome_map] at context
    exact ⟨peer', known', context⟩
  obtain ⟨peer', known', same | ⟨_, _, _, _, _, _, _, _, _, looks⟩⟩ :=
    Node.step_secret prim node env event known
  · refine stays peer' ?_ known'
    rw [same, Node.secret, Option.isSome_map]
    exact holds
  · refine stays peer' ?_ known'
    rw [looks]
    rfl

/-- A node without a context gets one from a KEY_EXCHANGE in the name of the other
that opens. -/
theorem Keyed.of_step {p : Side} {node : Node D} {sent : List Emission} {env : Env D}
    {event : Node.Event} (party : pair.Party prim p node sent)
    (keyed : pair.Keyed p (node.step prim env event).1) :
    pair.Keyed p node ∨ ∃ data srcAddr packet derivedKey, event = .recv data srcAddr ∧
      Packet.parse data = .ok packet ∧ packet.header.pktType = pktKeyExchange ∧
      packet.header.peerId = pair.id p.other ∧ node.openKeyExchange prim packet = .ok derivedKey := by
  obtain ⟨peer, known, _⟩ := party.entry
  obtain ⟨peer', known', same | ⟨data, srcAddr, packet, derivedKey, received, parsed, type, name,
    opened, _⟩⟩ := Node.step_secret prim node env event known
  · obtain ⟨peer'', there, holds⟩ := keyed
    cases known'.symm.trans there
    have context : peer'.peerCrypto.isSome = peer.peerCrypto.isSome := by
      simpa only [Node.secret, Option.isSome_map] using congrArg (fun s => s.2.isSome) same
    exact Or.inl ⟨peer, known, context.symm.trans holds⟩
  · exact Or.inr ⟨data, srcAddr, packet, derivedKey, received, parsed, type, name, opened⟩

/-- If the second node has a context whenever the first has, the upgrade strands
nobody. -/
theorem upgraded_of_keyed {net : Pair D}
    (parties : ∀ p, pair.Party prim p (net.node p) (net.sent p))
    (keyed : pair.Keyed .a (net.node .a) → pair.Keyed .b (net.node .b)) : pair.Upgraded net := by
  intro peer ctx known complete
  obtain ⟨_, received, crypto⟩ := Node.sendContext_eq_some complete
  obtain ⟨here, known', agreed⟩ := (parties .a).entry
  cases known.symm.trans known'
  have isSome : peer.peerCrypto.isSome := by
    rw [crypto]
    rfl
  obtain ⟨ctx', context, derived, session⟩ := agreed.of_isSome isSome
  rw [RemotePeer.recvContext, received, if_pos rfl, crypto] at context
  cases context
  obtain ⟨there, found, holds⟩ := keyed ⟨peer, known, isSome⟩
  obtain ⟨there', found', agreed'⟩ := (parties .b).entry
  cases found.symm.trans found'
  obtain ⟨ctx', context', derived', session'⟩ := agreed'.of_isSome holds
  refine ⟨there, ctx', found, context', ?_, session'.trans session.symm⟩
  rw [derived] at derived'
  exact (Except.ok.inj derived').symm

/-- **What one step preserves**: whenever the first node has a context, so has the
second. -/
theorem keyed_step {net : Pair D} {input : Side × Env D × Node.Event}
    (parties : ∀ p, pair.Party prim p (net.node p) (net.sent p))
    (keyed : pair.Keyed .a (net.node .a) → pair.Keyed .b (net.node .b))
    (met : pair.Met prim net input) :
    pair.Keyed .a (((pairMachine prim).step net input).1.node .a) →
      pair.Keyed .b (((pairMachine prim).step net input).1.node .b) := by
  obtain ⟨p, env, event⟩ := input
  intro after
  cases p with
  | a =>
      rw [pairMachine, Network.step_node_of_ne _ _ (by decide : Side.b ≠ .a)]
      rw [pairMachine, Network.step_node_self] at after
      rcases Keyed.of_step (parties .a) after with before | ⟨data, srcAddr, packet, derivedKey,
        received, parsed, type, name, opened⟩
      · exact keyed before
      · exact met rfl data srcAddr packet derivedKey received parsed type name opened
  | b =>
      rw [pairMachine, Network.step_node_self]
      rw [pairMachine, Network.step_node_of_ne _ _ (by decide : Side.a ≠ .b)] at after
      exact (keyed after).step env event

/-- A KEY_EXCHANGE that opens at the first node when the second has no context
strands it. -/
theorem met_of_upgraded (seals : prim.aead.Seals 32) {net : Pair D}
    {input : Side × Env D × Node.Event}
    (parties : ∀ p, pair.Party prim p (net.node p) (net.sent p))
    (upgraded : pair.Upgraded ((pairMachine prim).step net input).1) :
    pair.Met prim net input := by
  obtain ⟨p, env, event⟩ := input
  rintro rfl data srcAddr packet derivedKey rfl parsed type name opened
  obtain ⟨peer, known, _⟩ := (parties .a).entry
  obtain ⟨peer', known', complete⟩ := Node.handleKeyExchange_sendContext seals opened srcAddr
    (name ▸ known)
  have after : (((pairMachine prim).step net (.a, env, .recv data srcAddr)).1.node .a).getPeer
      (pair.id .b) = some peer' := by
    rw [pairMachine, Network.step_node_self]
    change (Node.handleIncoming prim (net.node .a) env data srcAddr).node.getPeer _ = _
    rw [Node.handleIncoming_eq prim parsed, Node.handlePacket_keyExchange prim type, ← name]
    exact known'
  obtain ⟨there, ctx, found, context, _⟩ := upgraded peer' _ after complete
  rw [pairMachine, Network.step_node_of_ne _ _ (by decide : Side.b ≠ .a)] at found
  refine ⟨there, found, ?_⟩
  unfold RemotePeer.recvContext at context
  split_ifs at context
  rw [context]
  rfl

/-- **When the upgrade strands nobody.** In every run of the two nodes over an
honest network in which both keep their identity, the first node never sends
audio under a key that the second has not got exactly when it never handles a
KEY_EXCHANGE of the second before the second has a context for it. -/
theorem upgraded_iff (pair : Introduction D) (correct : prim.aead.Correct)
    (seals : prim.aead.Seals 32) (commutes : KeyExchange.Commutes prim)
    (inputs : List (Side × Env D × Node.Event))
    (honest : (pairMachine prim).Along
      (fun net input => pair.Authentic prim net input ∧ pair.IdentityKept prim net input)
      pair.start inputs) :
    (pairMachine prim).Along
        (fun net input => pair.Upgraded ((pairMachine prim).step net input).1) pair.start inputs ↔
      (pairMachine prim).Along (pair.Met prim) pair.start inputs := by
  have unkeyed : ¬ pair.Keyed .a (pair.node .a) := by
    rintro ⟨peer, known, holds⟩
    have none := pair.entry .a
    change Option.map RemotePeer.progress ((pair.node .a).getPeer (pair.id Side.a.other)) = _ at none
    rw [known, Option.map_some, RemotePeer.progress, Option.some_inj] at none
    rw [(Prod.mk.inj (Prod.mk.inj (Prod.mk.inj none).2).2).2] at holds
    cases holds
  constructor
  · intro upgraded
    refine Machine.along_of_invariant
      (fun net => ∀ p, pair.Party prim p (net.node p) (net.sent p)) ?_ ?_ (party_start ·)
      (Machine.along_and honest upgraded)
    · rintro net input parties ⟨⟨authentic, kept⟩, _⟩
      exact party_step correct commutes parties authentic kept
    · rintro net input parties ⟨_, upgraded⟩
      exact met_of_upgraded seals parties upgraded
  · intro met
    have preserved : ∀ (net : Pair D) (input : Side × Env D × Node.Event),
        (∀ p, pair.Party prim p (net.node p) (net.sent p)) ∧
          (pair.Keyed .a (net.node .a) → pair.Keyed .b (net.node .b)) →
        (pair.Authentic prim net input ∧ pair.IdentityKept prim net input) ∧
          pair.Met prim net input →
        (∀ p, pair.Party prim p (((pairMachine prim).step net input).1.node p)
            (((pairMachine prim).step net input).1.sent p)) ∧
          (pair.Keyed .a (((pairMachine prim).step net input).1.node .a) →
            pair.Keyed .b (((pairMachine prim).step net input).1.node .b)) := by
      rintro net input ⟨parties, keyed⟩ ⟨⟨authentic, kept⟩, met⟩
      exact ⟨party_step correct commutes parties authentic kept, keyed_step parties keyed met⟩
    refine Machine.along_of_invariant _ preserved ?_
      ⟨(party_start ·), fun keyed => absurd keyed unkeyed⟩ (Machine.along_and honest met)
    intro net input held admitted
    obtain ⟨parties, keyed⟩ := preserved net input held admitted
    exact upgraded_of_keyed parties keyed

/-- The second node gets the key of the first, and then answers with its own. -/
def inTurn : List (Side × Env Unit × Node.Event) :=
  [(.a, Sample.env 0 1, .ping), (.b, Sample.env 1 2, .recv (Sample.exchange .a) (Sample.addr 0)),
    (.a, Sample.env 0 3, .recv (Sample.exchange .b) (Sample.addr 1))]

/-- When the keys are exchanged one after the other, nobody is stranded. -/
theorem upgraded_in_turn : (pairMachine Primitives.transparent).Along
    (fun net input =>
      Sample.pair.Upgraded ((pairMachine Primitives.transparent).step net input).1)
    Sample.pair.start inTurn := by
  refine (upgraded_iff Sample.pair Aead.transparent_correct (Aead.transparent_seals 32)
    Primitives.transparent_commutes inTurn ⟨?_, ?_, ?_, trivial⟩).mpr ⟨?_, ?_, ?_, trivial⟩
  · exact Sample.honest_of_timer _ _ _ fun _ _ => nofun
  · exact Sample.honest_of_sent _ _ _ _ (by decide +kernel) (by decide +kernel)
  · exact Sample.honest_of_sent _ _ _ _ (by decide +kernel) (by decide +kernel)
  · exact fun _ _ _ _ _ => nofun
  · exact nofun
  · intro _ _ _ _ _ _ _ _ _ _
    refine Keyed.of_bind ?_
    decide +kernel

/-- **The upgrade strands the receiver** when a KEY_EXCHANGE is lost: the first
node has sent its own, so it upgrades as soon as it gets the other's. -/
theorem upgrade_strands_receiver :
    ¬ ∀ inputs : List (Side × Env Unit × Node.Event),
      (pairMachine Primitives.transparent).Along (fun net input =>
        Sample.pair.Authentic Primitives.transparent net input ∧
          Sample.pair.IdentityKept Primitives.transparent net input) Sample.pair.start inputs →
      (pairMachine Primitives.transparent).Along (fun net input =>
        Sample.pair.Upgraded ((pairMachine Primitives.transparent).step net input).1)
        Sample.pair.start inputs := by
  intro claim
  have upgraded := claim
    [(.a, Sample.env 0 1, .ping), (.b, Sample.env 1 1, .ping),
      (.a, Sample.env 0 2, .recv (Sample.exchange .b) (Sample.addr 1))] ⟨?_, ?_, ?_, trivial⟩
  · have received := upgraded.2.2.1.isSome (by decide +kernel)
    exact absurd received (by decide +kernel)
  · exact Sample.honest_of_timer _ _ _ fun _ _ => nofun
  · exact Sample.honest_of_timer _ _ _ fun _ _ => nofun
  · exact Sample.honest_of_sent _ _ _ _ (by decide +kernel) (by decide +kernel)

end Introduction

end VoiceChat
