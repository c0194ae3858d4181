import VoiceChat.Library.Index
import VoiceChat.Library.Machine
import VoiceChat.Peer

/-!
# The address index

Beside the table of peers a node keeps the ids by address, and `peerByAddr` finds
in it whose keepalive has arrived. The index is right when it is inverse to the
table. Entering a peer under an address that another entry has already breaks
this: both entries keep the address, the index knows the later one only. Nothing
in `addPeer` asks whether the address is taken, so a table and its index stay
inverse exactly in the runs where this is never done (`inverse_iff`).
-/

set_option autoImplicit false

namespace VoiceChat

namespace PeerManager

variable {D : Type}

/-- The ids by address and the peers by id are inverse maps. -/
def Inverse (pm : PeerManager D) : Prop :=
  HashMap.Indexes RemotePeer.addr pm.addrToId pm.peers

/-- What can be asked of the table of a host or of a joining node. -/
inductive Operation (D : Type) where
  | addPeer (id : UInt8) (addr : SocketAddr) (newDecoder : Option D) (now : Instant)
  | allocatePeerId
  | setIdentity (localId : UInt8) (sessionId : SessionId)
  | checkTimeouts (now : Instant)

/-- The table after an operation; one that fails leaves it as it was. -/
def apply (pm : PeerManager D) : Operation D → PeerManager D
  | .addPeer id addr newDecoder now =>
    match pm.addPeer id addr newDecoder now with
    | .error _ => pm
    | .ok pm' => pm'
  | .allocatePeerId =>
    match pm.allocatePeerId with
    | .error _ => pm
    | .ok (_, pm') => pm'
  | .setIdentity localId sessionId => pm.setIdentity localId sessionId
  | .checkTimeouts now => pm.checkTimeouts now

/-- A table under a sequence of operations. -/
def tableMachine (D : Type) : Machine (PeerManager D) (Operation D) Empty where
  step pm operation := (pm.apply operation, [])

/-- The operation enters a peer under an address that another entry has. -/
def Clashes (pm : PeerManager D) : Operation D → Prop
  | .addPeer id addr newDecoder _ =>
      id ≠ pm.localId ∧ pm.peers.size < maxPeers - 1 ∧
        (pm.getPeer id = none → newDecoder ≠ none) ∧
        ∃ other peer, other ≠ id ∧ pm.getPeer other = some peer ∧ peer.addr = addr
  | _ => False

instance Clashes.decidable (pm : PeerManager D) :
    (operation : Operation D) → Decidable (pm.Clashes operation)
  | .addPeer id addr newDecoder _ =>
      decidable_of_iff (id ≠ pm.localId ∧ pm.peers.size < maxPeers - 1 ∧
        ((pm.getPeer id).isNone → newDecoder.isSome) ∧
        ∃ other ∈ pm.peers.keys, other ≠ id ∧ (pm.getPeer other).map RemotePeer.addr = some addr)
        (by
          refine and_congr_right fun _ => and_congr_right fun _ => and_congr ?_ ?_
          · rw [Option.isNone_iff_eq_none, Option.isSome_iff_ne_none]
          · simp only [Option.map_eq_some_iff]
            constructor
            · rintro ⟨other, _, different, peer, stored, named⟩
              exact ⟨other, peer, different, stored, named⟩
            · rintro ⟨other, peer, different, stored, named⟩
              have member : other ∈ pm.peers := HashMap.mem_iff_lookup.mpr ⟨peer, stored⟩
              exact ⟨other, AList.mem_keys.mp member, different, peer, stored, named⟩)
  | .allocatePeerId => inferInstanceAs (Decidable False)
  | .setIdentity _ _ => inferInstanceAs (Decidable False)
  | .checkTimeouts _ => inferInstanceAs (Decidable False)

/-! ## One operation -/

/-- Giving out an id leaves both maps as they are. -/
theorem apply_allocatePeerId (pm : PeerManager D) :
    (pm.apply .allocatePeerId).peers = pm.peers ∧
      (pm.apply .allocatePeerId).addrToId = pm.addrToId := by
  unfold apply
  dsimp only
  split
  · exact ⟨rfl, rfl⟩
  · rename_i allocated
    obtain ⟨_, _, _, rfl⟩ := allocatePeerId_eq_ok allocated
    exact ⟨rfl, rfl⟩

theorem inverse_checkTimeouts {pm : PeerManager D} (inverse : pm.Inverse) (now : Instant) :
    (pm.checkTimeouts now).Inverse := by
  refine HashMap.Indexes.mapValues inverse fun peer => ?_
  split_ifs
  · rfl
  · rfl

/-- **Adding a peer** keeps table and index inverse exactly when no other entry
has the address, or nothing is added. -/
theorem inverse_addPeer_iff {pm : PeerManager D} (inverse : pm.Inverse) (id : UInt8)
    (addr : SocketAddr) (newDecoder : Option D) (now : Instant) :
    (pm.apply (.addPeer id addr newDecoder now)).Inverse ↔
      ¬ pm.Clashes (.addPeer id addr newDecoder now) := by
  unfold apply Clashes addPeer
  dsimp only
  by_cases self : id = pm.localId
  · rw [if_pos self]
    exact iff_of_true inverse fun clash => clash.1 self
  rw [if_neg self]
  by_cases full : pm.peers.size ≥ maxPeers - 1
  · rw [if_pos full]
    exact iff_of_true inverse fun clash => absurd clash.2.1 (Nat.not_lt.mpr full)
  rw [if_neg full]
  cases known : pm.peers.lookup id with
  | none =>
    cases newDecoder with
    | none => exact iff_of_true inverse fun clash => clash.2.2.1 known rfl
    | some decoder =>
      refine ((inverse.without_of_absent known).write_iff
        (RemotePeer.new id addr decoder now)).trans ⟨?_, ?_⟩
      · rintro apart ⟨_, _, _, other, peer, different, stored, named⟩
        exact apart other peer different stored named
      · intro apart other peer different stored named
        exact apart ⟨self, Nat.lt_of_not_le full, fun _ => Option.some_ne_none decoder, other,
          peer, different, stored, named⟩
  | some old =>
    dsimp only
    rw [moveAddr]
    by_cases here : old.addr = addr
    · rw [if_pos here]
      refine iff_of_true inverse ?_
      rintro ⟨_, _, _, other, peer, different, stored, named⟩
      have first := (inverse addr other).mpr ⟨peer, stored, named⟩
      rw [(inverse addr id).mpr ⟨old, known, here⟩] at first
      cases first
      exact different rfl
    · rw [if_neg here]
      refine ((inverse.without_of_erase known).write_iff
        { old with addr := addr }).trans ⟨?_, ?_⟩
      · rintro apart ⟨_, _, _, other, peer, different, stored, named⟩
        exact apart other peer different stored named
      · intro apart other peer different stored named
        refine apart ⟨self, Nat.lt_of_not_le full, fun unknown => ?_, other, peer, different,
          stored, named⟩
        cases unknown.symm.trans known

/-- **One operation** keeps table and index inverse exactly when it does not clash. -/
theorem inverse_apply_iff {pm : PeerManager D} (inverse : pm.Inverse) (operation : Operation D) :
    (pm.apply operation).Inverse ↔ ¬ pm.Clashes operation := by
  cases operation with
  | addPeer id addr newDecoder now => exact inverse_addPeer_iff inverse id addr newDecoder now
  | allocatePeerId =>
    refine iff_of_true ?_ fun clash => clash
    obtain ⟨peers, addrToId⟩ := pm.apply_allocatePeerId
    rw [Inverse, peers, addrToId]
    exact inverse
  | setIdentity localId sessionId => exact iff_of_true inverse fun clash => clash
  | checkTimeouts now => exact iff_of_true (inverse_checkTimeouts inverse now) fun clash => clash

/-! ## Runs -/

/-- A table as a node starts with it. -/
inductive Fresh : PeerManager D → Prop where
  | host (sessionId : SessionId) : Fresh (newHost sessionId)
  | joiner : Fresh newJoiner

theorem Fresh.inverse {pm : PeerManager D} (fresh : pm.Fresh) : pm.Inverse := by
  cases fresh with
  | host sessionId => exact HashMap.indexes_empty
  | joiner => exact HashMap.indexes_empty

/-- **The index is right** in every state of a run exactly when no operation of the
run enters a peer under an address that another entry has. -/
theorem inverse_iff {pm : PeerManager D} (fresh : pm.Fresh) (operations : List (Operation D)) :
    (∀ done, done <+: operations →
        ∀ addr id, ((tableMachine D).run pm done).peerByAddr addr = some id ↔
          ∃ peer, ((tableMachine D).run pm done).getPeer id = some peer ∧ peer.addr = addr) ↔
      (tableMachine D).Along (fun pm operation => ¬ pm.Clashes operation) pm operations :=
  Machine.invariant_iff (M := tableMachine D) Inverse
    (fun _ operation inverse => inverse_apply_iff inverse operation) fresh.inverse operations

/-- A peer that moved is found at its new address. -/
theorem moved_peer_indexed :
    ((tableMachine Unit).run (newHost (Vector.replicate 8 1))
        [.addPeer 1 (.v4 #v[10, 0, 0, 1] 5000) (some ()) 0,
          .addPeer 1 (.v4 #v[10, 0, 0, 2] 5000) (some ()) 1,
          .addPeer 2 (.v4 #v[10, 0, 0, 1] 5000) (some ()) 2]).peerByAddr
        (.v4 #v[10, 0, 0, 2] 5000) = some 1 :=
  ((inverse_iff (.host (Vector.replicate 8 1)) _).mpr (by decide +kernel) _ (List.prefix_refl _)
    _ _).mpr ⟨_, rfl, rfl⟩

/-- **The index is not always right**: two ids entered under one address leave the
first one without an index entry. -/
theorem shared_address_not_indexed :
    ¬ ∀ (pm : PeerManager Unit) (operations : List (Operation Unit)), pm.Fresh →
      ∀ addr id, ((tableMachine Unit).run pm operations).peerByAddr addr = some id ↔
        ∃ peer, ((tableMachine Unit).run pm operations).getPeer id = some peer ∧
          peer.addr = addr := by
  intro claim
  have indexed := claim (newHost (Vector.replicate 8 1))
    [.addPeer 1 (.v4 #v[10, 0, 0, 1] 5000) (some ()) 0,
      .addPeer 2 (.v4 #v[10, 0, 0, 1] 5000) (some ()) 1]
    (.host _) (.v4 #v[10, 0, 0, 1] 5000) 1
  have found := indexed.mpr ⟨_, rfl, rfl⟩
  exact absurd found (by decide +kernel)

end PeerManager

end VoiceChat
