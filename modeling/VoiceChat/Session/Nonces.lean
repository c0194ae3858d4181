import VoiceChat.Session.Coherence

/-!
# Nonces under the pre-shared key

The nonce of a packet is made of the session, the sender's id, the sequence
number and the counter. Packets that the session context numbers never share
one, since each counter is drawn once. HELLO, HELLO_ACK and KEY_EXCHANGE are
sealed with fresh contexts instead, all with sequence number and counter zero,
and so is the first packet of the session context when it carries no sequence
number. That one nonce, the zero slot, has up to four users.

`noncesUnique_run` shows that the nonces stay unique in every run in which the
zero slot has one user, and the session context is not restarted after it has
drawn. The host's first ping tick after a JOIN has two users for it
(`nonces_not_unique`).
-/

set_option autoImplicit false

namespace VoiceChat

/-- Who seals with sequence number and counter zero. -/
inductive ZeroUser where
  | hello
  | helloAck
  | keyExchange
  /-- The first packet that the session context numbers. -/
  | counted
  deriving DecidableEq

/-- The type and the payload of the packets that a user puts in the zero slot. -/
def ZeroUser.packet {D : Type} (prim : Primitives D) (keyExchange : KeyExchange) :
    ZeroUser → Option (UInt8 × Bytes)
  | .hello => some (pktHello, [])
  | .helloAck => some (pktHelloAck, [])
  | .keyExchange =>
      some (pktKeyExchange, KeyExchangePayload.toBytes ⟨keyExchange.publicKeyBytes prim⟩)
  | .counted => none

/-- The packet is sealed under the pre-shared key for a session that the node
holds. JOIN and PEER_LIST are sealed for the zero session. -/
def Emission.InSession (e : Emission) : Prop :=
  e.scope = .psk ∧ e.header.pktType ≠ pktJoin ∧ e.header.pktType ≠ pktPeerList

/-- Packets of the session with the same nonce have the same header and the same
plaintext. -/
def NoncesUnique (out : List Emission) : Prop :=
  ∀ e ∈ out, ∀ e' ∈ out, e.InSession → e'.InSession → e.nonce = e'.nonce →
    e.header = e'.header ∧ e.plaintext = e'.plaintext

namespace Node

variable {D : Type} {prim : Primitives D}

/-- At this step the zero slot is for one user only, and the session context is
not restarted once it has drawn. -/
structure OneUser (prim : Primitives D) (user : ZeroUser) (node : Node D)
    (input : Env D × Event) : Prop where
  /-- A peer list opens only for the HELLOs, before a counter is drawn. -/
  peerLists : ∀ data srcAddr, input.2 = .recv data srcAddr → ∀ myId sessionId,
    node.adopts prim data = some (myId, sessionId) →
      user = .hello ∧ node.cryptoCtx.sendCounter = 0
  /-- A HELLO is answered only for the HELLO_ACKs. -/
  hellos : ∀ data srcAddr, input.2 = .recv data srcAddr → ∀ packet plaintext peerMgr,
    Packet.parse data = .ok packet → packet.header.pktType = pktHello →
    opens prim (node.pskCtx node.peerMgr.sessionId) packet = .ok plaintext →
    node.greeted input.1 srcAddr packet.header.peerId = .ok peerMgr → user = .helloAck
  keyExchanges : node.OwesKeyExchange prim input.2 → user = .keyExchange
  /-- The first counter is drawn only for its own packet. -/
  counters : user ≠ .counted → node.cryptoCtx.sendCounter = 0 →
    ¬ node.Draws prim input.1 input.2

/-- What holds of the packets sent so far. -/
structure SlotKept (prim : Primitives D) (user : ZeroUser) (node : Node D) (out : List Emission) :
    Prop where
  sealedWith : ∀ e ∈ out, e.InSession → ∃ ctx, e.SealedWith prim.aead ctx
  below : ∀ e ∈ out, e.Counted → e.header.counter.toNat < node.cryptoCtx.sendCounter.toNat
  ordered : out.Pairwise fun first second => first.Counted → second.Counted →
    first.header.counter.toNat < second.header.counter.toNat
  slot : ∀ e ∈ out, e.InSession → ¬ e.Counted →
    ∃ pktType payload, user.packet prim node.keyExchange = some (pktType, payload) ∧
      e.header = ⟨pktType, e.header.peerId, 0, 0⟩ ∧ e.plaintext = payload
  skipped : user ≠ .counted → ∀ e ∈ out, e.Counted → 0 < e.header.counter.toNat

/-- Counted packets are told apart by their counters. -/
theorem SlotKept.eq_of_counter {user : ZeroUser} {node : Node D} {out : List Emission}
    (kept : SlotKept prim user node out) {e e' : Emission} (member : e ∈ out) (member' : e' ∈ out)
    (counted : e.Counted) (counted' : e'.Counted) (counter : e.header.counter = e'.header.counter) :
    e = e' := by
  by_contra different
  have symmetric : Std.Symm fun first second : Emission => first.Counted → second.Counted →
      first.header.counter.toNat ≠ second.header.counter.toNat :=
    ⟨fun _ _ apart one two equal => apart two one equal.symm⟩
  have distinct : out.Pairwise fun first second => first.Counted → second.Counted →
      first.header.counter.toNat ≠ second.header.counter.toNat :=
    kept.ordered.imp fun less one two => Nat.ne_of_lt (less one two)
  exact distinct.forall member member' different counted counted' (congrArg UInt32.toNat counter)

theorem SlotKept.noncesUnique {user : ZeroUser} {node : Node D} {out : List Emission}
    (kept : SlotKept prim user node out) : NoncesUnique out := by
  intro e member e' member' inSession inSession' same
  obtain ⟨ctx, sealedWith⟩ := kept.sealedWith e member inSession
  obtain ⟨ctx', sealedWith'⟩ := kept.sealedWith e' member' inSession'
  rw [sealedWith.nonce, sealedWith'.nonce, buildNonce_inj] at same
  obtain ⟨_, peerId, _, counter⟩ := same
  -- a counted packet is not in the slot of another user
  have apart : ∀ f ∈ out, ∀ f' ∈ out, f.Counted → f'.InSession → ¬ f'.Counted →
      f.header.counter ≠ f'.header.counter := by
    intro f inside f' inside' counted session uncounted equal
    obtain ⟨_, _, packet, header, _⟩ := kept.slot f' inside' session uncounted
    have other : user ≠ .counted := by
      rintro rfl
      cases packet
    have positive := kept.skipped other f inside counted
    rw [equal, header] at positive
    exact Nat.lt_irrefl _ positive
  by_cases counted : e.Counted
  · by_cases counted' : e'.Counted
    · obtain rfl := kept.eq_of_counter member member' counted counted' counter
      exact ⟨rfl, rfl⟩
    · exact absurd counter (apart e member e' member' counted inSession' counted')
  · by_cases counted' : e'.Counted
    · exact absurd counter.symm (apart e' member' e member counted' inSession counted)
    · obtain ⟨_, _, packet, header, plaintext⟩ := kept.slot e member inSession counted
      obtain ⟨_, _, packet', header', plaintext'⟩ := kept.slot e' member' inSession' counted'
      rw [packet] at packet'
      cases packet'
      exact ⟨by rw [header, header', peerId], plaintext.trans plaintext'.symm⟩

/-- Every packet of the session is sealed with some context, and is counted or in
the slot of its user. -/
theorem Emits.slot {user : ZeroUser} {node : Node D} {input : Env D × Event} {e : Emission}
    (emits : Emits prim node input.1 input.2 e) (only : OneUser prim user node input)
    (inSession : e.InSession) :
    (∃ ctx, e.SealedWith prim.aead ctx) ∧ (e.Counted ∨
      ∃ pktType payload, user.packet prim node.keyExchange = some (pktType, payload) ∧
        e.header = ⟨pktType, e.header.peerId, 0, 0⟩ ∧ e.plaintext = payload) := by
  obtain ⟨env, event⟩ := input
  cases emits with
  | peerList parsed join answer =>
      obtain ⟨_, header, _⟩ := mem_handleJoin_out answer
      exact absurd (congrArg PacketHeader.pktType header) inSession.2.2
  | hello adopted sealedWith scope header plaintext =>
      obtain ⟨rfl, _⟩ := only.peerLists _ _ rfl _ _ adopted
      exact ⟨⟨_, sealedWith⟩, Or.inr ⟨_, _, rfl, by rw [header], plaintext⟩⟩
  | helloAck parsed type opened greeting sealedWith scope header plaintext dst =>
      obtain rfl := only.hellos _ _ rfl _ _ _ parsed type opened greeting
      exact ⟨⟨_, sealedWith⟩, Or.inr ⟨_, _, rfl, by rw [header], plaintext⟩⟩
  | keyExchange owed sealedWith scope header plaintext =>
      obtain rfl := only.keyExchanges owed
      exact ⟨⟨_, sealedWith⟩, Or.inr ⟨_, _, rfl, by rw [header], plaintext⟩⟩
  | counted draws sealedWith scope type peerId =>
      exact ⟨⟨_, sealedWith⟩, Or.inl ⟨scope, type⟩⟩
  | peerAudio known complete sealedWith scope type peerId =>
      have clash := scope.symm.trans inSession.1
      cases clash

/-- A step that adopts an identity draws no counter. -/
theorem not_draws_of_adopts {node : Node D} {env : Env D} {data : Bytes} {srcAddr : SocketAddr}
    {identity : UInt8 × SessionId} (adopted : node.adopts prim data = some identity) :
    ¬ node.Draws prim env (.recv data srcAddr) := by
  rintro ⟨packet, _, parsed, ping, _⟩
  rw [adopts, parsed] at adopted
  dsimp only at adopted
  rw [if_neg (by rw [ping]; decide)] at adopted
  cases adopted

/-- **The step.** -/
theorem SlotKept.step {user : ZeroUser} {node : Node D} {out : List Emission}
    {input : Env D × Event} (kept : SlotKept prim user node out)
    (only : OneUser prim user node input) :
    SlotKept prim user (node.step prim input.1 input.2).1
      (out ++ (node.step prim input.1 input.2).2) := by
  have slots : ∀ e ∈ (node.step prim input.1 input.2).2, e.InSession →
      (∃ ctx, e.SealedWith prim.aead ctx) ∧ (e.Counted ∨
        ∃ pktType payload, user.packet prim node.keyExchange = some (pktType, payload) ∧
          e.header = ⟨pktType, e.header.peerId, 0, 0⟩ ∧ e.plaintext = payload) :=
    fun e member inSession => (emits_of_step member).slot only inSession
  have keyed : ∀ e ∈ out ++ (node.step prim input.1 input.2).2, e.InSession →
      ∃ ctx, e.SealedWith prim.aead ctx := by
    intro e member inSession
    rcases List.mem_append.mp member with old | new
    · exact kept.sealedWith e old inSession
    · exact (slots e new inSession).1
  have slot : ∀ e ∈ out ++ (node.step prim input.1 input.2).2, e.InSession → ¬ e.Counted →
      ∃ pktType payload, user.packet prim node.keyExchange = some (pktType, payload) ∧
        e.header = ⟨pktType, e.header.peerId, 0, 0⟩ ∧ e.plaintext = payload := by
    intro e member inSession uncounted
    rcases List.mem_append.mp member with old | new
    · exact kept.slot e old inSession uncounted
    · exact (slots e new inSession).2.resolve_left uncounted
  cases step_identified prim node input.1 input.2 with
  | @adopted data srcAddr myId sessionId received adopted _ _ _ _ keyExchange =>
      obtain ⟨_, undrawn⟩ := only.peerLists data srcAddr received myId sessionId adopted
      -- nothing was numbered before, and nothing is now
      have uncounted : ∀ e ∈ out ++ (node.step prim input.1 input.2).2, ¬ e.Counted := by
        intro e member counted
        rcases List.mem_append.mp member with old | new
        · have below := kept.below e old counted
          rw [undrawn] at below
          exact Nat.not_lt_zero _ below
        · obtain ⟨draws, _⟩ := (emits_of_step new).of_counted counted
          rw [received] at draws
          exact not_draws_of_adopts adopted draws
      refine ⟨keyed, fun e member counted => absurd counted (uncounted e member), ?_, ?_,
        fun _ e member counted => absurd counted (uncounted e member)⟩
      · exact List.pairwise_of_forall_mem_list fun e member _ _ counted =>
          absurd counted (uncounted e member)
      · rw [keyExchange]
        exact slot
  | kept unlisted =>
      have counts : Counts prim node (node.step prim input.1 input.2).1
          (node.step prim input.1 input.2).2 := step_counts input.1 unlisted
      refine ⟨keyed, ?_, ?_, by rw [counts.keeps.keyExchange]; exact slot, ?_⟩
      · intro e member counted
        rcases List.mem_append.mp member with old | new
        · exact Nat.lt_of_lt_of_le (kept.below e old counted) counts.keeps.counter
        · exact counts.below e new counted
      · refine List.pairwise_append.mpr ⟨kept.ordered, counts.ordered, ?_⟩
        intro e old e' new counted counted'
        exact Nat.lt_of_lt_of_le (kept.below e old counted) (counts.above e' new counted')
      · intro other e member counted
        rcases List.mem_append.mp member with old | new
        · exact kept.skipped other e old counted
        · obtain ⟨draws, _⟩ := (emits_of_step new).of_counted counted
          refine Nat.lt_of_lt_of_le (Nat.pos_of_ne_zero fun zero => ?_) (counts.above e new counted)
          exact only.counters other (UInt32.toNat_inj.mp zero) draws

/-- **Nonces are unique while the zero slot has one user.** In every run whose
steps leave the zero slot to one user and do not restart the session context
after it has drawn, packets of the session with the same nonce are the same
packet. -/
theorem noncesUnique_run (user : ZeroUser) (node : Node D) (inputs : List (Env D × Event))
    (only : (nodeMachine prim).Along (OneUser prim user) node inputs) :
    NoncesUnique ((nodeMachine prim).outputs node inputs) := by
  have start : SlotKept prim user node [] :=
    ⟨fun _ member => absurd member List.not_mem_nil, fun _ member => absurd member List.not_mem_nil,
      List.Pairwise.nil, fun _ member => absurd member List.not_mem_nil,
      fun _ _ member => absurd member List.not_mem_nil⟩
  exact (Machine.invariant_outputs (SlotKept prim user)
    (fun _ _ _ kept only => kept.step only) start only).noncesUnique

/-- A JOIN or a HELLO leaves the zero slot to the HELLO_ACKs. -/
theorem oneUser_of_handshake {node : Node D} {env : Env D} {data : Bytes} {srcAddr : SocketAddr}
    {packet : Packet} (parsed : Packet.parse data = .ok packet)
    (type : packet.header.pktType ∈ [pktJoin, pktHello]) :
    OneUser prim .helloAck node (env, .recv data srcAddr) := by
  have other : ∀ pktType, pktType ∉ [pktJoin, pktHello] → packet.header.pktType ≠ pktType :=
    fun pktType absent same => absent (same ▸ type)
  refine ⟨?_, fun _ _ _ _ _ _ _ _ _ _ => rfl, ?_, ?_⟩
  · rintro _ _ ⟨⟩ myId sessionId adopted
    rw [adopts_of_type parsed (other _ (by decide))] at adopted
    cases adopted
  · rintro ⟨packet', _, _, parsed', keyExchange, _⟩
    cases parsed.symm.trans parsed'
    exact absurd keyExchange (other _ (by decide))
  · rintro _ _ ⟨packet', _, parsed', ping, _⟩
    cases parsed.symm.trans parsed'
    exact absurd ping (other _ (by decide))

/-- A host answers the HELLOs of two members, one of which comes twice: the three HELLO_ACKs
share a nonce, and are one packet. -/
theorem noncesUnique_helloAcks : NoncesUnique ((nodeMachine Primitives.transparent).outputs
    Sample.host [(Sample.env 0 0, .recv Sample.join (Sample.addr 1)),
      (Sample.env 0 1, .recv (Sample.hello 1) (Sample.addr 1)),
      (Sample.env 0 2, .recv Sample.join (Sample.addr 2)), (Sample.env 0 3, .playout),
      (Sample.env 0 4, .recv (Sample.hello 2) (Sample.addr 2)),
      (Sample.env 0 5, .recv (Sample.hello 1) (Sample.addr 1))]) := by
  have join : ∃ packet, Packet.parse Sample.join = .ok packet ∧
      packet.header.pktType ∈ [pktJoin, pktHello] := ⟨_, rfl, by decide⟩
  have hello : ∀ id, ∃ packet, Packet.parse (Sample.hello id) = .ok packet ∧
      packet.header.pktType ∈ [pktJoin, pktHello] := fun id =>
    ⟨_, rfl, List.mem_cons_of_mem _ List.mem_cons_self⟩
  have received : ∀ {data : Bytes}, (∃ packet, Packet.parse data = .ok packet ∧
      packet.header.pktType ∈ [pktJoin, pktHello]) → ∀ (node : Node Unit) (now : Env Unit)
      (srcAddr : SocketAddr), OneUser Primitives.transparent .helloAck node
        (now, .recv data srcAddr) := by
    rintro data ⟨packet, parsed, type⟩ node now srcAddr
    exact oneUser_of_handshake parsed type
  have played : ∀ (node : Node Unit) (now : Env Unit),
      OneUser Primitives.transparent .helloAck node (now, .playout) := fun node now =>
    { peerLists := fun _ _ received => by cases received
      hellos := fun _ _ received => by cases received
      keyExchanges := fun owed => by cases owed
      counters := fun _ _ draws => by cases draws }
  exact noncesUnique_run .helloAck _ _ ⟨received join _ _ _, received (hello 1) _ _ _,
    received join _ _ _, played _ _, received (hello 2) _ _ _, received (hello 1) _ _ _, trivial⟩

/-- **Nonces are not unique**: the first ping tick of a host after a JOIN seals a
PING and a KEY_EXCHANGE with one nonce. -/
theorem nonces_not_unique :
    ¬ ∀ inputs : List (Env Unit × Event), NoncesUnique
      ((nodeMachine Primitives.transparent).outputs Sample.host inputs) := by
  intro claim
  have unique := claim [(Sample.env 0 0, .recv Sample.join (Sample.addr 1)),
    (Sample.env 0 1, .ping)]
  unfold NoncesUnique Emission.InSession at unique
  exact absurd unique (by decide +kernel)

end Node

end VoiceChat
