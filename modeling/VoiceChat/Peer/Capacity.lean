import VoiceChat.Peer.AddressIndex

/-!
# The room in the table

A call has five members, so a table has room for four peers, and no sequence of
operations fills in more (`size_run_le`). `addPeer` asks for room before it asks
whether the peer is there already. Once the table is full it therefore refuses
to update a peer it knows, as it refuses to enter one it does not know; in every
other state it refuses exactly the peers that would be one too many
(`addsOrUpdates_iff`).
-/

set_option autoImplicit false

namespace VoiceChat

namespace PeerManager

variable {D : Type}

/-- `addPeer` enters a peer or updates it: it fails for want of room only, then
leaves the table as it was, and of a known peer it changes the address alone. -/
structure AddsOrUpdates (pm : PeerManager D) (id : UInt8) (addr : SocketAddr) (decoder : D)
    (now : Instant) : Prop where
  refuses : (∃ refusal, pm.addPeer id addr (some decoder) now = .error refusal) ↔
    id ≠ pm.localId ∧ pm.getPeer id = none ∧ pm.peers.size = maxPeers - 1
  keeps : ∀ refusal, pm.addPeer id addr (some decoder) now = .error refusal →
    (pm.apply (.addPeer id addr (some decoder) now)).peers = pm.peers ∧
      (pm.apply (.addPeer id addr (some decoder) now)).addrToId = pm.addrToId
  updates : ∀ peer, pm.getPeer id = some peer →
    ∃ pm', pm.addPeer id addr (some decoder) now = .ok pm' ∧
      pm'.getPeer id = some { peer with addr := if id = pm.localId then peer.addr else addr }

/-- The table is full and has the peer already. -/
def FullWith (pm : PeerManager D) (id : UInt8) : Prop :=
  id ≠ pm.localId ∧ pm.getPeer id ≠ none ∧ pm.peers.size = maxPeers - 1

/-! ## One operation -/

theorem size_checkTimeouts (pm : PeerManager D) (now : Instant) :
    (pm.checkTimeouts now).peers.size = pm.peers.size := by
  rw [checkTimeouts, HashMap.size, HashMap.mapValues, HashMap.keys_mapWithKey, HashMap.size]

/-- No operation takes a table beyond its room. -/
theorem size_apply_le {pm : PeerManager D} (bounded : pm.peers.size ≤ maxPeers - 1)
    (operation : Operation D) : (pm.apply operation).peers.size ≤ maxPeers - 1 := by
  cases operation with
  | addPeer id addr newDecoder now =>
    unfold apply
    dsimp only
    split
    · exact bounded
    · rename_i added
      exact size_addPeer_le added bounded
  | allocatePeerId =>
    rw [pm.apply_allocatePeerId.1]
    exact bounded
  | setIdentity localId sessionId => exact bounded
  | checkTimeouts now => exact (size_checkTimeouts pm now).trans_le bounded

/-- A refused peer leaves the table as it was. -/
theorem apply_of_refused {pm : PeerManager D} {id : UInt8} {addr : SocketAddr}
    {newDecoder : Option D} {now : Instant} {refusal : Error}
    (refused : pm.addPeer id addr newDecoder now = .error refusal) :
    pm.apply (.addPeer id addr newDecoder now) = pm := by
  unfold apply
  dsimp only
  rw [refused]

/-- **One call of `addPeer`** within the room there is: it enters or updates the
peer exactly when the peer is not one that a full table has already. -/
theorem addsOrUpdates_iff_not_fullWith {pm : PeerManager D}
    (bounded : pm.peers.size ≤ maxPeers - 1) (id : UInt8) (addr : SocketAddr) (decoder : D)
    (now : Instant) : pm.AddsOrUpdates id addr decoder now ↔ ¬ pm.FullWith id := by
  constructor
  · rintro updates ⟨remote, known, full⟩
    have refused := addPeer_full remote full.ge addr (some decoder) now
    exact known (updates.refuses.mp ⟨_, refused⟩).2.1
  · intro free
    have keeps : ∀ refusal, pm.addPeer id addr (some decoder) now = .error refusal →
        (pm.apply (.addPeer id addr (some decoder) now)).peers = pm.peers ∧
          (pm.apply (.addPeer id addr (some decoder) now)).addrToId = pm.addrToId := by
      intro refusal refused
      rw [apply_of_refused refused]
      exact ⟨rfl, rfl⟩
    by_cases self : id = pm.localId
    · have itself : pm.addPeer id addr (some decoder) now = .ok pm := if_pos self
      refine ⟨iff_of_false ?_ fun refused => refused.1 self, keeps, fun peer known => ?_⟩
      · rintro ⟨refusal, refused⟩
        cases itself.symm.trans refused
      · refine ⟨pm, itself, ?_⟩
        rw [if_pos self]
        exact known
    cases stored : pm.getPeer id with
    | none =>
      refine ⟨?_, keeps, fun peer known => ?_⟩
      · constructor
        · rintro ⟨refusal, refused⟩
          refine ⟨self, stored, bounded.antisymm (Nat.le_of_not_lt fun room => ?_)⟩
          obtain ⟨pm', added, _⟩ := pm.addPeer_of_room self room stored addr decoder now
          cases added.symm.trans refused
        · rintro ⟨_, _, full⟩
          exact ⟨_, addPeer_full self full.ge addr (some decoder) now⟩
      · cases stored.symm.trans known
    | some old =>
      have room : pm.peers.size < maxPeers - 1 := by
        refine lt_of_le_of_ne bounded fun full => free ⟨self, ?_, full⟩
        rw [stored]
        exact Option.some_ne_none old
      have moved := addPeer_of_known stored self room addr (some decoder) now
      refine ⟨iff_of_false ?_ ?_, keeps, fun peer known => ?_⟩
      · rintro ⟨refusal, refused⟩
        cases moved.symm.trans refused
      · rintro ⟨_, unknown, _⟩
        cases stored.symm.trans unknown
      · cases stored.symm.trans known
        refine ⟨_, moved, ?_⟩
        rw [getPeer_moveAddr stored, if_pos rfl, if_neg self]

/-! ## Runs -/

theorem Fresh.size {pm : PeerManager D} (fresh : pm.Fresh) : pm.peers.size = 0 := by
  cases fresh with
  | host sessionId => rfl
  | joiner => rfl

/-- **No table is over full**, whatever is done to it. -/
theorem size_run_le {pm : PeerManager D} (fresh : pm.Fresh) (operations : List (Operation D)) :
    ((tableMachine D).run pm operations).peers.size ≤ maxPeers - 1 := by
  refine Machine.invariant (M := tableMachine D) (fun pm => pm.peers.size ≤ maxPeers - 1)
    (fun _ operation bounded _ => size_apply_le bounded operation) ?_
    ((tableMachine D).along_true pm operations)
  rw [fresh.size]
  exact Nat.zero_le _

/-- **`addPeer` fails only when it would overfill the table**, and leaves the table
as it was when it fails, in exactly the states and for exactly the peers where the
table is not full with the peer in it. -/
theorem addsOrUpdates_iff {pm : PeerManager D} (fresh : pm.Fresh)
    (operations : List (Operation D)) (id : UInt8) (addr : SocketAddr) (decoder : D)
    (now : Instant) :
    ((tableMachine D).run pm operations).AddsOrUpdates id addr decoder now ↔
      ¬ ((tableMachine D).run pm operations).FullWith id :=
  addsOrUpdates_iff_not_fullWith (size_run_le fresh operations) id addr decoder now

/-- The four other members of a full call, each entered once. -/
def fullCall : List (Operation Unit) :=
  [.addPeer 1 (.v4 #v[10, 0, 0, 1] 5000) (some ()) 0,
    .addPeer 2 (.v4 #v[10, 0, 0, 2] 5000) (some ()) 0,
    .addPeer 3 (.v4 #v[10, 0, 0, 3] 5000) (some ()) 0,
    .addPeer 4 (.v4 #v[10, 0, 0, 4] 5000) (some ()) 0]

/-- With one place left a known peer moves. -/
theorem known_peer_moves_with_room :
    ((tableMachine Unit).run (newHost (Vector.replicate 8 1)) (fullCall.take 3)).AddsOrUpdates 1
      (.v4 #v[10, 0, 0, 9] 5000) () 1 :=
  (addsOrUpdates_iff (.host (Vector.replicate 8 1)) (fullCall.take 3) 1 _ () 1).mpr fun full =>
    absurd full.2.2 (by decide +kernel)

/-- **A full table refuses to update**: a member of a call of five that moves to
another address cannot be entered there. -/
theorem full_call_refuses_update :
    ¬ ∀ (pm : PeerManager Unit) (operations : List (Operation Unit)) (id : UInt8)
      (addr : SocketAddr) (now : Instant), pm.Fresh →
      ((tableMachine Unit).run pm operations).AddsOrUpdates id addr () now := by
  intro claim
  have updates := claim (newHost (Vector.replicate 8 1)) fullCall 1 (.v4 #v[10, 0, 0, 9] 5000) 1
    (.host _)
  have full : ((tableMachine Unit).run (newHost (Vector.replicate 8 1)) fullCall).peers.size =
      maxPeers - 1 := by decide +kernel
  obtain ⟨_, unknown, _⟩ := updates.refuses.mp
    ⟨_, addPeer_full (by decide +kernel) full.ge _ _ _⟩
  exact absurd unknown (by decide +kernel)

end PeerManager

end VoiceChat
