import VoiceChat.Pair.Upgrade
import VoiceChat.Session.Coherence
import VoiceChat.Session.Numbering
import VoiceChat.Session.Stream

/-!
# Nonces under the key of a pair

The nonce of audio is told apart by the id of its sender, the sequence number and the
counter. Both nodes of a pair use the one key they have derived, and every
KEY_EXCHANGE of the other, a repeated one too, gives a node a new context for it,
whose counter starts at zero again. The sequence number goes on, but it has sixteen
bits only.

Under one context the difference of the two numbers stays as it was when the context
was first used (`Emission.origin`), so two contexts that start at different sequence
numbers never share a nonce. `nonces_unique` shows that the nonces stay unique in every
run in which no context starts at the origin of an earlier one. After 65536 frames and
one repeated KEY_EXCHANGE the first nonce is used again (`nonces_repeat`).
-/

set_option autoImplicit false

namespace VoiceChat

/-- The sequence number that goes with counter zero in the context that sealed the
packet. -/
def Emission.origin (e : Emission) : UInt16 := e.header.seqNum - e.header.counter.toUInt16

theorem Emission.filter_keyed {e : Emission} (scope : e.scope = .peer) :
    [e].filter (fun e => e.scope = .peer) = [e] := by
  rw [List.filter_singleton, decide_eq_true scope]
  rfl

/-- Audio in the order of its counters, as far as it has one origin. -/
def Ordered (audio : List Emission) : Prop :=
  audio.Pairwise fun first second => first.origin = second.origin →
    first.header.counter.toNat < second.header.counter.toNat

/-- The context has no counters left, or the next one is above those of the audio with
the same origin. -/
def Ahead (audio : List Emission) (seq : UInt16) (ctx : CryptoContext) : Prop :=
  ctx.sendCounter = 0xFFFFFFFF ∨ ∀ e ∈ audio, e.origin = seq - ctx.sendCounter.toUInt16 →
    e.header.counter.toNat < ctx.sendCounter.toNat

/-- A drawn counter was not the last one. -/
theorem CryptoContext.sendCounter_of_draw {ctx ctx' : CryptoContext} {counter : UInt32}
    (draw : ctx.nextCounter = .ok (counter, ctx')) :
    ctx.sendCounter ≠ 0xFFFFFFFF ∧ ctx'.sendCounter = ctx.sendCounter + 1 := by
  unfold nextCounter at draw
  split_ifs at draw with last
  cases draw
  exact ⟨last, rfl⟩

/-- A context that moves on together with the sequence number keeps its origin. -/
theorem origin_of_draw {ctx ctx' : CryptoContext} {counter : UInt32}
    (draw : ctx.nextCounter = .ok (counter, ctx')) (seq : UInt16) :
    seq + 1 - ctx'.sendCounter.toUInt16 = seq - ctx.sendCounter.toUInt16 := by
  rw [(CryptoContext.sendCounter_of_draw draw).2, UInt32.toUInt16_add,
    show UInt32.toUInt16 1 = 1 from rfl]
  grind

namespace Ahead

variable {audio : List Emission} {seq : UInt16} {ctx ctx' : CryptoContext} {counter : UInt32}

theorem above (ahead : Ahead audio seq ctx) (draw : ctx.nextCounter = .ok (counter, ctx')) :
    ∀ e ∈ audio, e.origin = seq - ctx.sendCounter.toUInt16 →
      e.header.counter.toNat < ctx.sendCounter.toNat :=
  ahead.resolve_left (CryptoContext.sendCounter_of_draw draw).1

/-- A context that is used stays ahead. -/
theorem drawn (ahead : Ahead audio seq ctx) (draw : ctx.nextCounter = .ok (counter, ctx')) :
    Ahead audio (seq + 1) ctx' := by
  obtain ⟨_, _, _, moved⟩ := CryptoContext.nextCounter_eq_ok draw
  refine Or.inr fun e member same => ?_
  have before := ahead.above draw e member (same.trans (origin_of_draw draw seq))
  omega

/-- It stays ahead of the packet it is used for, too. -/
theorem concat (ahead : Ahead audio seq ctx) (draw : ctx.nextCounter = .ok (counter, ctx'))
    {e : Emission} (drawn : e.header.counter = ctx.sendCounter) :
    Ahead (audio ++ [e]) (seq + 1) ctx' := by
  obtain ⟨_, _, _, moved⟩ := CryptoContext.nextCounter_eq_ok draw
  refine Or.inr fun e' member same => ?_
  rcases List.mem_append.mp member with old | new
  · have before := ahead.above draw e' old (same.trans (origin_of_draw draw seq))
    omega
  · rw [List.mem_singleton.mp new, drawn]
    omega

end Ahead

/-- One packet more. -/
theorem Ordered.concat {audio : List Emission} (ordered : Ordered audio) {e : Emission}
    (above : ∀ e' ∈ audio, e'.origin = e.origin →
      e'.header.counter.toNat < e.header.counter.toNat) :
    Ordered (audio ++ [e]) := by
  refine List.pairwise_append.mpr ⟨ordered, List.pairwise_singleton _ _, ?_⟩
  intro e' member e'' single
  rw [List.mem_singleton.mp single]
  exact above e' member

namespace Node

variable {D : Type} {prim : Primitives D}

/-- What holds of the entry of a peer and of the audio that was sent to it under its
keys: a context that was used is the one to send with, and it is ahead of the audio. -/
structure Numbered (id : UInt8) (audio : List Emission) (node : Node D) : Prop where
  entry : ∃ peer, node.getPeer id = some peer ∧
    (∀ ctx, peer.peerCrypto = some ctx → ctx.sendCounter ≠ 0 → peer.sendContext = some ctx) ∧
    ∀ ctx, peer.sendContext = some ctx → ctx.sendCounter ≠ 0 → Ahead audio peer.sendSeq ctx
  ordered : Ordered audio

/-- The same of a node that is to send: an unused context is ahead as well. -/
structure Ready (id : UInt8) (audio : List Emission) (node : Node D) : Prop where
  entry : ∃ peer, node.getPeer id = some peer ∧
    (∀ ctx, peer.peerCrypto = some ctx → ctx.sendCounter ≠ 0 → peer.sendContext = some ctx) ∧
    ∀ ctx, peer.sendContext = some ctx → Ahead audio peer.sendSeq ctx
  ordered : Ordered audio

theorem Ready.numbered {id : UInt8} {audio : List Emission} {node : Node D}
    (ready : Ready id audio node) : Numbered id audio node where
  entry := by
    obtain ⟨peer, known, used, ahead⟩ := ready.entry
    exact ⟨peer, known, used, fun ctx complete _ => ahead ctx complete⟩
  ordered := ready.ordered

/-- **One peer's share of a frame** leaves a node that is ready to send ready. -/
theorem Ready.sendFrameTo {id : UInt8} {audio : List Emission} {node : Node D}
    (ready : Ready id audio node) (prim : Primitives D) (opus : Bytes)
    (target : UInt8 × SocketAddr) :
    Ready id (audio ++ (if target.1 = id then (sendFrameTo prim opus node target).2
      else []).filter (·.scope = .peer)) (Node.sendFrameTo prim opus node target).1 := by
  obtain ⟨peer, known, used, ahead⟩ := ready.entry
  by_cases here : target.1 = id
  · subst here
    obtain ⟨peer', known', sendSeq, kxSent, kxReceived, numbers⟩ :=
      sendFrameTo_numbering prim opus node known
    rw [if_pos rfl]
    cases numbers with
    | session incomplete crypto scope =>
      have incomplete' : peer'.sendContext = none := by
        rw [RemotePeer.sendContext, kxSent, kxReceived, crypto]
        exact incomplete
      have none_keyed : List.filter (fun e : Emission => e.scope = .peer)
          (Node.sendFrameTo prim opus node target).2 = [] := by
        refine List.filter_eq_nil_iff.mpr fun e member keyed => ?_
        cases (scope e member).symm.trans (of_decide_eq_true keyed)
      rw [none_keyed, List.append_nil]
      refine ⟨⟨peer', known', fun ctx holds drawn => ?_, fun ctx complete => ?_⟩, ready.ordered⟩
      · cases incomplete.symm.trans (used ctx (crypto ▸ holds) drawn)
      · cases incomplete'.symm.trans complete
    | @exhausted ctx complete last crypto silent =>
      have complete' : peer'.sendContext = some ctx := by
        rw [RemotePeer.sendContext, kxSent, kxReceived, crypto]
        exact complete
      rw [silent, List.filter_nil, List.append_nil]
      refine ⟨⟨peer', known', fun ctx' holds drawn => ?_, fun ctx' context => ?_⟩, ready.ordered⟩
      · rw [complete', ← used ctx' (crypto ▸ holds) drawn, complete]
      · cases complete'.symm.trans context
        exact Or.inl last
    | @drawn ctx ctx' complete draw crypto sent =>
      obtain ⟨sent', received, _⟩ := sendContext_eq_some complete
      have complete' : peer'.sendContext = some ctx' := by
        rw [RemotePeer.sendContext, kxSent, kxReceived, sent', received, crypto]
        rfl
      have behind := ahead ctx complete
      have entry : ∀ audio', Ahead audio' peer'.sendSeq ctx' → ∃ peer',
          (Node.sendFrameTo prim opus node target).1.getPeer target.1 = some peer' ∧
          (∀ ctx, peer'.peerCrypto = some ctx → ctx.sendCounter ≠ 0 →
            peer'.sendContext = some ctx) ∧
          ∀ ctx, peer'.sendContext = some ctx → Ahead audio' peer'.sendSeq ctx := by
        refine fun audio' ahead' => ⟨peer', known', fun ctx holds _ => ?_, fun ctx context => ?_⟩
        · cases crypto.symm.trans holds
          exact complete'
        · cases complete'.symm.trans context
          exact ahead'
      rcases sent with silent | ⟨e, one, scope, _, header⟩
      · rw [silent, List.filter_nil, List.append_nil]
        refine ⟨entry audio ?_, ready.ordered⟩
        rw [sendSeq]
        exact behind.drawn draw
      · have counter : e.header.counter = ctx.sendCounter := congrArg PacketHeader.counter header
        have seqNum : e.header.seqNum = peer.sendSeq := congrArg PacketHeader.seqNum header
        rw [one, Emission.filter_keyed scope]
        refine ⟨entry (audio ++ [e]) ?_, ready.ordered.concat fun e' member same => ?_⟩
        · rw [sendSeq]
          exact behind.concat draw counter
        · rw [counter]
          refine behind.above draw e' member (same.trans ?_)
          rw [Emission.origin, seqNum, counter]
  · rw [if_neg here, List.filter_nil, List.append_nil]
    refine ⟨⟨peer, ?_, used, ahead⟩, ready.ordered⟩
    rw [sendFrameTo_getPeer_of_ne prim opus node (Ne.symm here)]
    exact known

/-- **A frame leaves a node that is ready to send ready.** -/
theorem Ready.sendFrame {id : UInt8} {audio : List Emission} {node : Node D}
    (ready : Ready id audio node) (prim : Primitives D) (env : Env D) (opus : Bytes) :
    Ready id (audio ++ (audioFor prim node env opus id).filter (·.scope = .peer))
      (step prim node env (.frame opus)).1 := by
  have walked := Machine.invariant_outputs
    (M := (eachPeer (Node.sendFrameTo prim opus)).observe fun node target =>
      if target.1 = id then (Node.sendFrameTo prim opus node target).2 else [])
    (fun node' out => Ready id (audio ++ out.filter (·.scope = .peer)) node')
    (fun node' out target ready _ => by
      rw [List.filter_append, ← List.append_assoc]
      exact ready.sendFrameTo prim opus target)
    (by rwa [List.filter_nil, List.append_nil] : Ready id (audio ++ [].filter _) node)
    (Machine.along_true _ node (node.peerMgr.connectedPeers env.order))
  rwa [Machine.run_observe, List.nil_append] at walked

/-- A frame that is not for a peer leaves its entry alone. -/
theorem sendFrame_of_untargeted {id : UInt8} {node : Node D} (prim : Primitives D) {env : Env D}
    (untargeted : ∀ addr, (id, addr) ∉ node.peerMgr.connectedPeers env.order) (opus : Bytes) :
    audioFor prim node env opus id = [] ∧
      (step prim node env (.frame opus)).1.getPeer id = node.getPeer id := by
  have walked : ∀ (targets : List (UInt8 × SocketAddr)) (node : Node D),
      (∀ addr, (id, addr) ∉ targets) →
      ((eachPeer (sendFrameTo prim opus)).observe fun node target =>
        if target.1 = id then (sendFrameTo prim opus node target).2 else []).outputs node targets =
          [] ∧
      ((eachPeer (sendFrameTo prim opus)).run node targets).getPeer id = node.getPeer id := by
    intro targets
    induction targets with
    | nil => exact fun _ _ => ⟨rfl, rfl⟩
    | cons target rest ih =>
        intro node absent
        have other : target.1 ≠ id := fun same => absent target.2 (same ▸ List.mem_cons_self)
        obtain ⟨silent, same⟩ := ih (sendFrameTo prim opus node target).1 fun addr member =>
          absent addr (List.mem_cons_of_mem _ member)
        refine ⟨?_, same.trans (sendFrameTo_getPeer_of_ne prim opus node other.symm)⟩
        rw [Machine.outputs_cons]
        exact (congrArg (· ++ _) (if_neg other)).trans silent
  exact walked _ node untargeted

/-- **What a step preserves.** A frame needs a context that it uses for the first time to
start apart from the audio so far. -/
theorem Numbered.step {id : UInt8} {audio : List Emission} {node : Node D}
    (numbered : Numbered id audio node) (prim : Primitives D) (env : Env D) (opus : Bytes)
    (apart : ∀ addr peer ctx, (id, addr) ∈ node.peerMgr.connectedPeers env.order →
      node.getPeer id = some peer → peer.sendContext = some ctx → ctx.sendCounter = 0 →
      ∀ e ∈ audio, e.origin ≠ peer.sendSeq) :
    Numbered id (audio ++ (audioFor prim node env opus id).filter (·.scope = .peer))
      (Node.step prim node env (.frame opus)).1 := by
  by_cases targeted : ∃ addr, (id, addr) ∈ node.peerMgr.connectedPeers env.order
  · obtain ⟨addr, target⟩ := targeted
    obtain ⟨peer, known, used, ahead⟩ := numbered.entry
    have ready : Ready id audio node := by
      refine ⟨⟨peer, known, used, fun ctx complete => ?_⟩, numbered.ordered⟩
      by_cases unused : ctx.sendCounter = 0
      · refine Or.inr fun e member same => absurd same ?_
        rw [unused, show UInt32.toUInt16 0 = 0 from rfl, sub_zero]
        exact apart addr peer ctx target known complete unused e member
      · exact ahead ctx complete unused
    exact (ready.sendFrame prim env opus).numbered
  · obtain ⟨silent, same⟩ := sendFrame_of_untargeted prim (not_exists.mp targeted) opus
    rw [silent, List.filter_nil, List.append_nil]
    refine ⟨?_, numbered.ordered⟩
    rw [same]
    exact numbered.entry

/-- A step that sends no frame. -/
theorem Numbered.quiet {id : UInt8} {audio : List Emission} {node : Node D}
    (numbered : Numbered id audio node) (prim : Primitives D) (env : Env D) {event : Event}
    (quiet : ¬ SendsFrame event) : Numbered id audio (Node.step prim node env event).1 := by
  obtain ⟨peer, known, used, ahead⟩ := numbered.entry
  obtain ⟨peer', known', renumbered⟩ := step_renumbers prim node env quiet id peer known
  rcases renumbered.context with ⟨received, crypto⟩ | ⟨new, crypto, unused⟩
  · -- a context that was used was complete, and stays so
    have context : ∀ ctx, peer'.peerCrypto = some ctx → ctx.sendCounter ≠ 0 →
        peer.sendContext = some ctx ∧ peer'.sendContext = some ctx := by
      intro ctx holds drawn
      have complete := used ctx (crypto ▸ holds) drawn
      obtain ⟨sent, received', _⟩ := sendContext_eq_some complete
      refine ⟨complete, ?_⟩
      rw [RemotePeer.sendContext, renumbered.kxSent sent, received, received', holds]
      rfl
    refine ⟨⟨peer', known', fun ctx holds drawn => (context ctx holds drawn).2, ?_⟩,
      numbered.ordered⟩
    intro ctx complete drawn
    obtain ⟨_, _, holds⟩ := sendContext_eq_some complete
    rw [renumbered.sendSeq]
    exact ahead ctx (context ctx holds drawn).1 drawn
  · refine ⟨⟨peer', known', fun ctx holds drawn => ?_, fun ctx complete drawn => ?_⟩,
      numbered.ordered⟩
    · cases crypto.symm.trans holds
      exact absurd unused drawn
    · obtain ⟨_, _, holds⟩ := sendContext_eq_some complete
      cases crypto.symm.trans holds
      exact absurd unused drawn

end Node

/-- Two nodes with the audio they have sent each other under the key of the pair. -/
structure Ledger (D : Type) where
  net : Pair D
  /-- The audio of each node, oldest first. -/
  audio : Side → List Emission

/-- Two packets under one key with one nonce are the same packet. -/
def Ledger.NoncesApart {D : Type} (ledger : Ledger D) : Prop :=
  ∀ (p q : Side) (i j : ℕ) (e e' : Emission), (ledger.audio p)[i]? = some e →
    (ledger.audio q)[j]? = some e' → e.key = e'.key → e.nonce = e'.nonce → p = q ∧ i = j

namespace Introduction

variable {D : Type} (prim : Primitives D) (pair : Introduction D)

/-- The audio under per-peer keys that a step sends to the other node. -/
def keyedAudio (net : Pair D) : Side × Env D × Node.Event → List Emission
  | (p, env, .frame opus) =>
      ((net.node p).audioFor prim env opus (pair.id p.other)).filter (·.scope = .peer)
  | _ => []

/-- The pair as a machine that keeps the audio. -/
def ledgerMachine : Machine (Ledger D) (Side × Env D × Node.Event) (Side × Emission) where
  step ledger input :=
    let (net, out) := (pairMachine prim).step ledger.net input
    ({ net := net
       audio := fun q => ledger.audio q ++
         if q = input.1 then pair.keyedAudio prim ledger.net input else [] }, out)

/-- Nothing was sent yet. -/
def ledger : Ledger D := ⟨pair.start, fun _ => []⟩

/-- The sequence number that counter zero of an unused context is to go with. -/
def nextOrigin (net : Pair D) (p : Side) : Option UInt16 :=
  ((net.node p).getPeer (pair.id p.other)).bind fun peer =>
    peer.sendContext.bind fun ctx => if ctx.sendCounter = 0 then some peer.sendSeq else none

/-- A frame to the other node that is the first under its context does not start at the
origin of earlier audio. -/
def StartsApart (ledger : Ledger D) (input : Side × Env D × Node.Event) : Prop :=
  ∀ opus addr seq, input.2.2 = .frame opus →
    (pair.id input.1.other, addr) ∈
      (ledger.net.node input.1).peerMgr.connectedPeers input.2.1.order →
    pair.nextOrigin ledger.net input.1 = some seq →
    ∀ e ∈ ledger.audio input.1, e.origin ≠ seq

/-! ## The invariant of one node -/

/-- What holds of a node and of the audio it has sent to the other one. -/
structure Sender (p : Side) (node : Node D) (audio : List Emission) : Prop where
  localId : node.peerMgr.localId = pair.id p
  sessionId : node.peerMgr.sessionId = pair.sessionId
  numbered : Node.Numbered (pair.id p.other) audio node
  nonce : ∀ e ∈ audio, ∃ sessionId,
    e.nonce = buildNonce sessionId (pair.id p) .send e.header.seqNum e.header.counter

variable {prim pair}

/-- Both nodes start so. -/
theorem sender_start (prim : Primitives D) (p : Side) : pair.Sender p (pair.node p) [] where
  localId := (party_start p : pair.Party prim p _ _).localId
  sessionId := (party_start p : pair.Party prim p _ _).sessionId
  numbered := by
    obtain ⟨peer, known, met⟩ := Option.map_eq_some_iff.mp (pair.entry p)
    obtain ⟨_, _, _, none⟩ := by
      simpa only [RemotePeer.progress, Prod.mk.injEq] using met
    refine ⟨⟨peer, known, fun ctx holds => ?_, fun ctx complete => ?_⟩, List.Pairwise.nil⟩
    · cases none.symm.trans holds
    · cases none.symm.trans (Node.sendContext_eq_some complete).2.2
  nonce _ member := absurd member List.not_mem_nil

theorem keyedAudio_of_quiet {net : Pair D} {p : Side} {env : Env D} {event : Node.Event}
    (quiet : ¬ Node.SendsFrame event) : pair.keyedAudio prim net (p, env, event) = [] := by
  cases event with
  | frame opus => exact absurd ⟨opus, rfl⟩ quiet
  | recv data srcAddr => rfl
  | playout => rfl
  | keepalive => rfl
  | ping => rfl
  | adapt elapsedSecs => rfl

/-- **What a step of a node preserves.** -/
theorem Sender.step {p : Side} {ledger : Ledger D} {env : Env D} {event : Node.Event}
    (sender : pair.Sender p (ledger.net.node p) (ledger.audio p))
    (kept : pair.IdentityKept prim ledger.net (p, env, event))
    (apart : pair.StartsApart ledger (p, env, event)) :
    pair.Sender p ((ledger.net.node p).step prim env event).1
      (ledger.audio p ++ pair.keyedAudio prim ledger.net (p, env, event)) := by
  have repeated : ∀ data srcAddr, event = .recv data srcAddr → ∀ myId sessionId,
      (ledger.net.node p).adopts prim data = some (myId, sessionId) →
        myId = (ledger.net.node p).peerMgr.localId ∧
          sessionId = (ledger.net.node p).peerMgr.sessionId := by
    rw [sender.localId, sender.sessionId]
    exact kept
  obtain ⟨localId, sessionId, _⟩ := Node.step_repeats env repeated
  refine ⟨localId.trans sender.localId, sessionId.trans sender.sessionId, ?_, ?_⟩
  · by_cases sends : Node.SendsFrame event
    · obtain ⟨opus, rfl⟩ := sends
      refine sender.numbered.step prim env opus fun addr peer ctx target known complete unused => ?_
      refine apart opus addr peer.sendSeq rfl target ?_
      rw [nextOrigin, known, Option.bind_some, complete, Option.bind_some, if_pos unused]
    · rw [keyedAudio_of_quiet sends, List.append_nil]
      exact sender.numbered.quiet prim env sends
  · intro e member
    rcases List.mem_append.mp member with old | new
    · exact sender.nonce e old
    · by_cases sends : Node.SendsFrame event
      · obtain ⟨opus, rfl⟩ := sends
        have streams := Node.audioFor_streams prim (ledger.net.node p) env opus (pair.id p.other)
        have inside := List.mem_of_mem_filter new
        obtain ⟨_, peerId⟩ := streams.header e inside
        obtain ⟨ctx, _, sealedWith⟩ := streams.sealedWith e inside
        refine ⟨ctx.sessionId, ?_⟩
        rw [sealedWith.nonce, peerId, sender.localId]
      · rw [keyedAudio_of_quiet sends] at new
        cases new

/-- What holds of both nodes holds after a step of one. -/
theorem sender_step {ledger : Ledger D} {input : Side × Env D × Node.Event}
    (senders : ∀ q, pair.Sender q (ledger.net.node q) (ledger.audio q))
    (kept : pair.IdentityKept prim ledger.net input) (apart : pair.StartsApart ledger input)
    (q : Side) : pair.Sender q (((pair.ledgerMachine prim).step ledger input).1.net.node q)
      (((pair.ledgerMachine prim).step ledger input).1.audio q) := by
  obtain ⟨p, env, event⟩ := input
  change pair.Sender q (((pairMachine prim).step ledger.net (p, env, event)).1.node q)
    (ledger.audio q ++ if q = p then pair.keyedAudio prim ledger.net (p, env, event) else [])
  by_cases mover : q = p
  · subst mover
    rw [pairMachine, Network.step_node_self, if_pos rfl]
    exact (senders q).step kept apart
  · rw [pairMachine, Network.step_node_of_ne _ _ mover, if_neg mover, List.append_nil]
    exact senders q

/-! ## Nonces -/

/-- Audio in order is told apart by origin and counter. -/
theorem index_unique {audio : List Emission} (ordered : Ordered audio) {i j : ℕ}
    {e e' : Emission} (at_i : audio[i]? = some e) (at_j : audio[j]? = some e')
    (origin : e.origin = e'.origin) (counter : e.header.counter = e'.header.counter) : i = j := by
  obtain ⟨inside, rfl⟩ := List.getElem?_eq_some_iff.mp at_i
  obtain ⟨inside', rfl⟩ := List.getElem?_eq_some_iff.mp at_j
  have between := List.pairwise_iff_getElem.mp ordered
  rcases Nat.lt_trichotomy i j with before | same | after
  · exact absurd (congrArg UInt32.toNat counter)
      (Nat.ne_of_lt (between i j inside inside' before origin))
  · exact same
  · exact absurd (congrArg UInt32.toNat counter.symm)
      (Nat.ne_of_lt (between j i inside' inside after origin.symm))

theorem noncesApart_of_senders {ledger : Ledger D}
    (senders : ∀ q, pair.Sender q (ledger.net.node q) (ledger.audio q)) :
    ledger.NoncesApart := by
  intro p q i j e e' at_i at_j _ same
  obtain ⟨session, nonce⟩ := (senders p).nonce e (List.mem_of_getElem? at_i)
  obtain ⟨session', nonce'⟩ := (senders q).nonce e' (List.mem_of_getElem? at_j)
  rw [nonce, nonce', buildNonce_inj] at same
  obtain ⟨_, ids, seqNum, counter⟩ := same
  have sides : p = q := by
    cases p with
    | a =>
        cases q with
        | a => rfl
        | b => exact absurd ids pair.distinct
    | b =>
        cases q with
        | a => exact absurd ids.symm pair.distinct
        | b => rfl
  subst sides
  refine ⟨rfl, index_unique (senders p).numbered.ordered at_i at_j ?_ counter⟩
  rw [Emission.origin, Emission.origin, seqNum, counter]

/-- **When nonces under the key of a pair are unique.** In every run of two nodes that
keep their identities, in which no context for the other is used for the first time at
the origin of earlier audio, no two packets of audio that they seal for each other
under per-peer keys share key and nonce. -/
theorem nonces_unique (pair : Introduction D) (inputs : List (Side × Env D × Node.Event))
    (kept : (pair.ledgerMachine prim).Along
      (fun ledger input => pair.IdentityKept prim ledger.net input) pair.ledger inputs)
    (apart : (pair.ledgerMachine prim).Along pair.StartsApart pair.ledger inputs) :
    ((pair.ledgerMachine prim).run pair.ledger inputs).NoncesApart := by
  refine noncesApart_of_senders (Machine.invariant (M := pair.ledgerMachine prim)
    (fun ledger => ∀ q, pair.Sender q (ledger.net.node q) (ledger.audio q))
    (fun ledger input senders admitted => sender_step senders admitted.1 admitted.2)
    (sender_start prim) (Machine.along_and kept apart))

/-- Keeping the audio does not change the run. -/
theorem ledgerMachine_net (ledger : Ledger D) (inputs : List (Side × Env D × Node.Event)) :
    ((pair.ledgerMachine prim).run ledger inputs).net =
      (pairMachine prim).run ledger.net inputs :=
  (pair.ledgerMachine prim).run_forget Ledger.net (fun _ _ => rfl) ledger inputs

/-- What was sent stays on record. -/
theorem sent_of_run (ledger : Ledger D) (inputs : List (Side × Env D × Node.Event)) {q : Side}
    {e : Emission} (member : e ∈ ledger.net.sent q) :
    e ∈ ((pair.ledgerMachine prim).run ledger inputs).net.sent q :=
  Machine.invariant (M := pair.ledgerMachine prim) (fun ledger => e ∈ ledger.net.sent q)
    (fun _ _ recorded _ => (Network.mem_step_sent (nodeMachine prim)).mpr (Or.inl recorded)) member
    (Machine.along_true _ _ _)

end Introduction

/-! ## A node that talks to one peer -/

namespace Node

variable {D : Type} {prim : Primitives D}

/-- The numbers of an entry. -/
def renumber (seq : UInt16) (counter : UInt32) (peer : RemotePeer D) : RemotePeer D :=
  { peer with
    sendSeq := seq
    peerCrypto := peer.peerCrypto.map fun ctx => { ctx with sendCounter := counter } }

theorem sendContext_renumber {peer : RemotePeer D} {ctx : CryptoContext}
    (complete : peer.sendContext = some ctx) (seq : UInt16) (counter : UInt32) :
    (renumber seq counter peer).sendContext = some { ctx with sendCounter := counter } := by
  obtain ⟨sent, received, crypto⟩ := sendContext_eq_some complete
  rw [RemotePeer.sendContext, renumber, sent, received, crypto]
  rfl

/-- **A frame of a node with one connected peer** takes the next numbers. -/
theorem sendFrame_alone {bound : ℕ} (seals : prim.aead.Seals bound) {opus : Bytes}
    (short : opus.length ≤ bound) {node : Node D} {env : Env D} {id : UInt8} {addr : SocketAddr}
    (alone : node.peerMgr.connectedPeers env.order = [(id, addr)]) {peer : RemotePeer D}
    (known : node.getPeer id = some peer) {ctx : CryptoContext}
    (complete : peer.sendContext = some ctx) (left : ctx.sendCounter ≠ 0xFFFFFFFF) :
    ∃ e, audioFor prim node env opus id = [e] ∧ e.scope = .peer ∧ e.key = ctx.key ∧
      e.nonce = buildNonce ctx.sessionId node.peerMgr.localId .send peer.sendSeq
        ctx.sendCounter ∧
      (step prim node env (.frame opus)).1 =
        node.modifyPeer id (renumber (peer.sendSeq + 1) (ctx.sendCounter + 1)) := by
  have draw : ctx.nextCounter =
      .ok (ctx.sendCounter, { ctx with sendCounter := ctx.sendCounter + 1 }) := if_neg left
  obtain ⟨e, sealed⟩ := sealPacket_of_seals seals short .peer
    { ctx with sendCounter := ctx.sendCounter + 1 }
    ⟨pktAudio, node.peerMgr.localId, peer.sendSeq, ctx.sendCounter⟩ addr true
    node.peerMgr.localId peer.sendSeq ctx.sendCounter
  obtain ⟨sealedWith, scope, header, _⟩ := sealPacket_eq_ok sealed
  have one : sendFrameTo prim opus node (id, addr) =
      ((node.modifyPeer id fun _ => peer.nextSeq.2).modifyPeer id fun peer =>
        { peer with peerCrypto := some { ctx with sendCounter := ctx.sendCounter + 1 } }, [e]) := by
    have context : peer.nextSeq.2.sendContext = some ctx := complete
    unfold sendFrameTo
    rw [known]
    dsimp only
    rw [context]
    dsimp only
    rw [draw]
    dsimp only
    have sealed' : sealPacket prim.aead .peer { ctx with sendCounter := ctx.sendCounter + 1 }
        ⟨pktAudio, node.peerMgr.localId, peer.nextSeq.1, ctx.sendCounter⟩ opus addr true
        node.peerMgr.localId peer.nextSeq.1 ctx.sendCounter = .ok e := sealed
    rw [sealed']
  refine ⟨e, ?_, scope, sealedWith.key, ?_, ?_⟩
  · rw [audioFor, alone]
    change (if id = id then (sendFrameTo prim opus node (id, addr)).2 else []) ++ [] = [e]
    rw [if_pos rfl, one, List.append_nil]
  · rw [sealedWith.nonce, header]
  · change (eachPeer (sendFrameTo prim opus)).run node (node.peerMgr.connectedPeers env.order) = _
    rw [alone]
    change (sendFrameTo prim opus node (id, addr)).1 = _
    rw [one]
    have changed : ∀ other, node.peerMgr.peers.lookup id = some other →
        { peer.nextSeq.2 with
          peerCrypto := some { ctx with sendCounter := ctx.sendCounter + 1 } } =
            renumber (peer.sendSeq + 1) (ctx.sendCounter + 1) other := by
      intro other found
      cases known.symm.trans found
      rw [renumber, (sendContext_eq_some complete).2.2]
      rfl
    unfold modifyPeer PeerManager.modifyPeer
    dsimp only
    rw [HashMap.modify_modify]
    exact congrArg (fun peers => ({ node with peerMgr := { node.peerMgr with peers := peers } } :
      Node D)) (HashMap.modify_congr changed)

/-- The entry of a node whose numbers are what they are. -/
theorem modifyPeer_renumber {node : Node D} {id : UInt8} {peer : RemotePeer D}
    (known : node.getPeer id = some peer) {ctx : CryptoContext}
    (complete : peer.sendContext = some ctx) :
    node.modifyPeer id (renumber peer.sendSeq ctx.sendCounter) = node := by
  have fixed : node.peerMgr.modifyPeer id (renumber peer.sendSeq ctx.sendCounter) =
      node.peerMgr := by
    refine PeerManager.modifyPeer_eq_self fun other found => ?_
    cases known.symm.trans found
    have crypto := (sendContext_eq_some complete).2.2
    rw [renumber, crypto]
    exact congrArg (fun held => ({ peer with peerCrypto := held } : RemotePeer D)) crypto.symm
  rw [Node.modifyPeer, fixed]

/-- Numbers that are changed twice. -/
theorem modifyPeer_renumber_renumber (node : Node D) (id : UInt8) (seq seq' : UInt16)
    (counter counter' : UInt32) :
    (node.modifyPeer id (renumber seq counter)).modifyPeer id (renumber seq' counter') =
      node.modifyPeer id (renumber seq' counter') := by
  have composed : renumber seq' counter' ∘ renumber seq counter =
      (renumber seq' counter' : RemotePeer D → RemotePeer D) := by
    funext peer
    rw [Function.comp_apply, renumber, renumber, Option.map_map]
    rfl
  unfold modifyPeer PeerManager.modifyPeer
  dsimp only
  rw [HashMap.modify_modify, composed]

end Node

/-! ## A pair that goes on talking -/

namespace Sample

/-- The first node once the keys are exchanged. -/
def talker : Node Unit :=
  ((pairMachine Primitives.transparent).run pair.start Introduction.inTurn).node .a

/-- So many frames of the first node. -/
def speech (n : ℕ) : List (Side × Env Unit × Node.Event) :=
  List.replicate n (.a, env 0 4, .frame [])

/-- The keys are exchanged, the first node talks for so long that its sequence number
comes round, and then it gets the KEY_EXCHANGE of the other once more. -/
def rekeyed : List (Side × Env Unit × Node.Event) :=
  Introduction.inTurn ++ speech 65536 ++
    [(.a, env 0 5, .recv (exchange .b) (addr 1)), (.a, env 0 6, .frame [])]

/-- The same after one frame only. -/
def rekeyedEarly : List (Side × Env Unit × Node.Event) :=
  [(.a, env 0 1, .ping), (.b, env 1 2, .recv (exchange .a) (addr 0)),
    (.a, env 0 3, .recv (exchange .b) (addr 1)), (.a, env 0 4, .frame []),
    (.a, env 0 5, .recv (exchange .b) (addr 1)), (.a, env 0 6, .frame [])]

/-- The first node after so many frames and the KEY_EXCHANGE that comes again. -/
def restarted : Node Unit :=
  (Node.step Primitives.transparent (talker.modifyPeer 1
    (Node.renumber (UInt16.ofNat 65536) (UInt32.ofNat 65536))) (env 0 5)
    (.recv (exchange .b) (addr 1))).1

end Sample

namespace Introduction

theorem talker_alone :
    Sample.talker.peerMgr.connectedPeers (Sample.env 0 4).order = [(1, Sample.addr 1)] := by
  decide +kernel

theorem talker_id : Sample.talker.peerMgr.localId = 0 := by decide +kernel

/-- What the first node and its audio are like after so many frames. -/
theorem speech_run {ctx : CryptoContext}
    (found : (Sample.talker.getPeer 1).bind RemotePeer.sendContext = some ctx) (n : ℕ)
    (few : n ≤ 65536) :
    ((Sample.pair.ledgerMachine Primitives.transparent).run Sample.pair.ledger
        (inTurn ++ Sample.speech n)).net.node .a =
      Sample.talker.modifyPeer 1 (Node.renumber (UInt16.ofNat n) (UInt32.ofNat n)) ∧
    (((Sample.pair.ledgerMachine Primitives.transparent).run Sample.pair.ledger
        (inTurn ++ Sample.speech n)).audio .a).map (fun e => (e.key, e.nonce)) =
      (List.range n).map fun k =>
        (ctx.key, buildNonce ctx.sessionId 0 .send (UInt16.ofNat k) (UInt32.ofNat k)) := by
  obtain ⟨peer, known, complete⟩ := Option.bind_eq_some_iff.mp found
  have fresh : ((Sample.talker.getPeer 1).map RemotePeer.sendSeq = some 0) ∧
      ((Sample.talker.getPeer 1).bind RemotePeer.sendContext).map CryptoContext.sendCounter =
        some 0 := by decide +kernel
  rw [found, known] at fresh
  have seq : peer.sendSeq = 0 := Option.some.inj fresh.1
  have counter : ctx.sendCounter = 0 := Option.some.inj fresh.2
  induction n with
  | zero =>
    have same := Node.modifyPeer_renumber known complete
    rw [seq, counter] at same
    have silent : ((Sample.pair.ledgerMachine Primitives.transparent).run Sample.pair.ledger
        inTurn).audio .a = [] := by decide +kernel
    rw [Sample.speech, List.replicate_zero, List.append_nil, ledgerMachine_net, silent]
    exact ⟨same.symm, rfl⟩
  | succ n ih =>
    obtain ⟨node, audio⟩ := ih (Nat.le_of_succ_le few)
    have one_more : Sample.speech (n + 1) =
        Sample.speech n ++ [(.a, Sample.env 0 4, .frame [])] := List.replicate_succ'
    rw [one_more, ← List.append_assoc, Machine.run_append]
    generalize (Sample.pair.ledgerMachine Primitives.transparent).run Sample.pair.ledger
      (inTurn ++ Sample.speech n) = ledger at *
    have alone : (Sample.talker.modifyPeer 1 (Node.renumber (UInt16.ofNat n)
        (UInt32.ofNat n))).peerMgr.connectedPeers (Sample.env 0 4).order =
        [(1, Sample.addr 1)] := by
      rw [← talker_alone]
      exact PeerManager.connectedPeers_modifyPeer Sample.talker.peerMgr 1
        (f := Node.renumber (UInt16.ofNat n) (UInt32.ofNat n)) (fun _ => ⟨rfl, rfl, rfl⟩) _
    have left : UInt32.ofNat n ≠ 0xFFFFFFFF := by
      intro last
      have value : (UInt32.ofNat n).toNat = 4294967295 := congrArg UInt32.toNat last
      rw [UInt32.toNat_ofNat'] at value
      omega
    have entry : (Sample.talker.modifyPeer 1 (Node.renumber (UInt16.ofNat n)
        (UInt32.ofNat n))).getPeer 1 =
        some (Node.renumber (UInt16.ofNat n) (UInt32.ofNat n) peer) := by
      rw [Node.getPeer_modifyPeer, if_pos rfl, known, Option.map_some]
    have seals : Primitives.transparent.aead.Seals 0 := Aead.transparent_seals 0
    have short : List.length ([] : Bytes) ≤ 0 := Nat.le_refl 0
    obtain ⟨e, sent, scope, key, nonce, moved⟩ := Node.sendFrame_alone seals short alone entry
      (Node.sendContext_renumber complete _ _) left
    rw [← node] at sent moved
    refine ⟨?_, ?_⟩
    · change ((pairMachine Primitives.transparent).step ledger.net _).1.node .a = _
      rw [pairMachine, Network.step_node_self]
      refine moved.trans ?_
      rw [node, Node.modifyPeer_renumber_renumber, UInt16.ofNat_add, UInt32.ofNat_add]
      rfl
    · change (ledger.audio .a ++ if Side.a = Side.a then ((ledger.net.node .a).audioFor
        Primitives.transparent (Sample.env 0 4) [] (Sample.pair.id .b)).filter (·.scope = .peer)
        else []).map _ = _
      have local_id := (Node.keeps_modifyPeer Sample.talker 1
        (Node.renumber (UInt16.ofNat n) (UInt32.ofNat n))).localId.trans talker_id
      rw [if_pos rfl, show Sample.pair.id .b = 1 by decide +kernel, sent,
        Emission.filter_keyed scope, List.map_append, audio, List.range_succ, List.map_append,
        List.map_singleton, List.map_singleton, key, nonce, local_id]
      rfl

theorem exchange_parses (p : Side) : ∃ packet, Packet.parse (Sample.exchange p) = .ok packet ∧
    packet.header.pktType ≠ pktPeerList := by
  have type : (Packet.parse (Sample.exchange p)).toOption.map (·.header.pktType) =
      some pktKeyExchange := by
    cases p with
    | a => decide +kernel
    | b => decide +kernel
  cases parsed : Packet.parse (Sample.exchange p) with
  | error e =>
    rw [parsed] at type
    cases type
  | ok packet =>
    rw [parsed] at type
    have keyExchange : packet.header.pktType = pktKeyExchange := Option.some.inj type
    refine ⟨packet, rfl, ?_⟩
    rw [keyExchange]
    decide

/-- A KEY_EXCHANGE gives nobody another identity. -/
theorem identityKept_of_exchange (net : Pair Unit) (p q : Side) (env : Env Unit)
    (srcAddr : SocketAddr) :
    Sample.pair.IdentityKept Primitives.transparent net
      (p, env, .recv (Sample.exchange q) srcAddr) := by
  obtain ⟨packet, parsed, other⟩ := exchange_parses q
  intro data srcAddr' received myId sessionId adopted
  cases received
  cases (Node.adopts_of_type parsed other).symm.trans adopted

theorem startsApart_of_ne {ledger : Ledger Unit} {p : Side} {env : Env Unit} {event : Node.Event}
    (apart : ∀ e ∈ ledger.audio p, Sample.pair.nextOrigin ledger.net p ≠ some e.origin) :
    Sample.pair.StartsApart ledger (p, env, event) := by
  intro opus addr seq _ _ start e member same
  exact apart e member (start.trans (congrArg some same.symm))

/-- What an honest network and group are trusted with. -/
theorem honest_rekeyed : (Sample.pair.ledgerMachine Primitives.transparent).Along
    (fun ledger input => Sample.pair.Authentic Primitives.transparent ledger.net input ∧
      Sample.pair.IdentityKept Primitives.transparent ledger.net input)
    Sample.pair.ledger Sample.rekeyed := by
  obtain ⟨packet, parsed, other⟩ := exchange_parses .b
  refine (Machine.along_append _ _ _ _ _).mpr
    ⟨(Machine.along_append _ _ _ _ _).mpr ⟨⟨?_, ?_, ?_, trivial⟩, ?_⟩, ?_, ?_, trivial⟩
  · exact Sample.honest_of_timer _ _ _ fun _ _ => nofun
  · exact Sample.honest_of_sent _ _ _ _ (by decide +kernel) (by decide +kernel)
  · exact Sample.honest_of_sent _ _ _ _ (by decide +kernel) (by decide +kernel)
  · refine Machine.along_of_forall fun ledger input member => ?_
    rw [List.eq_of_mem_replicate member]
    exact Sample.honest_of_timer _ _ _ fun _ _ => nofun
  · refine Sample.honest_of_sent _ _ _ _ ?_ (Node.adopts_of_type parsed other)
    rw [Machine.run_append]
    obtain ⟨e, member, same⟩ : ∃ e ∈ ((Sample.pair.ledgerMachine Primitives.transparent).run
        Sample.pair.ledger inTurn).net.sent .b, Sample.exchange .b = e.wire := by decide +kernel
    exact ⟨e, sent_of_run _ _ member, same⟩
  · exact Sample.honest_of_timer _ _ _ fun _ _ => nofun

theorem restarted_repeats :
    ((Node.audioFor Primitives.transparent Sample.restarted (Sample.env 0 6) []
      (Sample.pair.id .b)).filter (·.scope = .peer)).map (fun e => some (e.key, e.nonce)) =
    [((Sample.talker.getPeer 1).bind RemotePeer.sendContext).map fun ctx =>
      (ctx.key, buildNonce ctx.sessionId 0 .send 0 0)] := by
  decide +kernel

/-- A KEY_EXCHANGE that comes again after one frame does no harm. -/
theorem early_rekeying_apart :
    ((Sample.pair.ledgerMachine Primitives.transparent).run Sample.pair.ledger
      Sample.rekeyedEarly).NoncesApart := by
  refine nonces_unique Sample.pair Sample.rekeyedEarly ⟨?_, ?_, ?_, ?_, ?_, ?_, trivial⟩
    ⟨?_, ?_, ?_, ?_, ?_, ?_, trivial⟩
  · exact (Sample.honest_of_timer _ _ _ fun _ _ same => by cases same).2
  · exact identityKept_of_exchange _ _ _ _ _
  · exact identityKept_of_exchange _ _ _ _ _
  · exact (Sample.honest_of_timer _ _ _ fun _ _ same => by cases same).2
  · exact identityKept_of_exchange _ _ _ _ _
  · exact (Sample.honest_of_timer _ _ _ fun _ _ same => by cases same).2
  · exact startsApart_of_ne (by decide +kernel)
  · exact startsApart_of_ne (by decide +kernel)
  · exact startsApart_of_ne (by decide +kernel)
  · exact startsApart_of_ne (by decide +kernel)
  · exact fun _ _ _ sends => by cases sends
  · exact startsApart_of_ne (by decide +kernel)

/-- **Nonces repeat**: after 65536 frames and one KEY_EXCHANGE that comes again, a node
seals with the key and the nonce of its first frame. -/
theorem nonces_repeat :
    ¬ ∀ inputs : List (Side × Env Unit × Node.Event),
      (Sample.pair.ledgerMachine Primitives.transparent).Along (fun ledger input =>
        Sample.pair.Authentic Primitives.transparent ledger.net input ∧
          Sample.pair.IdentityKept Primitives.transparent ledger.net input)
        Sample.pair.ledger inputs →
      ((Sample.pair.ledgerMachine Primitives.transparent).run Sample.pair.ledger
        inputs).NoncesApart := by
  intro claim
  have apart := claim Sample.rekeyed honest_rekeyed
  have sending : ((Sample.talker.getPeer 1).bind RemotePeer.sendContext).isSome := by
    decide +kernel
  obtain ⟨ctx, found⟩ := Option.isSome_iff_exists.mp sending
  obtain ⟨node, audio⟩ := speech_run found 65536 (Nat.le_refl _)
  have again := restarted_repeats
  rw [found, Option.map_some, Sample.restarted, ← node] at again
  rw [Sample.rekeyed, Machine.run_append] at apart
  generalize (Sample.pair.ledgerMachine Primitives.transparent).run Sample.pair.ledger
    (inTurn ++ Sample.speech 65536) = ledger at *
  obtain ⟨e', one, alike'⟩ := List.map_eq_singleton_iff.mp again
  have final : ((Sample.pair.ledgerMachine Primitives.transparent).run ledger
      [(.a, Sample.env 0 5, .recv (Sample.exchange .b) (Sample.addr 1)),
        (.a, Sample.env 0 6, .frame [])]).audio .a = ledger.audio .a ++ [e'] := by
    rw [← one]
    change (ledger.audio .a ++ []) ++ List.filter _ (Node.audioFor Primitives.transparent
      (((pairMachine Primitives.transparent).step ledger.net _).1.node .a) _ _ _) = _
    rw [List.append_nil, pairMachine, Network.step_node_self]
    rfl
  have length : (ledger.audio .a).length = 65536 := by
    have lengths := congrArg List.length audio
    rwa [List.length_map, List.length_map, List.length_range] at lengths
  obtain ⟨e, first, alike⟩ : ∃ e, (ledger.audio .a)[0]? = some e ∧
      (e.key, e.nonce) = (ctx.key, buildNonce ctx.sessionId 0 .send 0 0) := by
    have heads := congrArg (fun l => l[0]?) audio
    rw [List.getElem?_map, List.getElem?_map, List.getElem?_range (by decide)] at heads
    exact Option.map_eq_some_iff.mp heads
  obtain ⟨key, nonce⟩ := Prod.mk.inj alike
  obtain ⟨key', nonce'⟩ := Prod.mk.inj (Option.some.inj alike')
  obtain ⟨_, same⟩ := apart .a .a 0 65536 e e'
    (by rw [final, List.getElem?_append_left (by omega), first])
    (by rw [final, ← length, List.getElem?_concat_length])
    (key.trans key'.symm) (nonce.trans nonce'.symm)
  cases same

end Introduction

end VoiceChat
