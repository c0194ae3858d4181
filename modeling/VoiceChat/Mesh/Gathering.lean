import Mathlib.Data.List.Perm.Subperm
import VoiceChat.Mesh
import VoiceChat.Session.Answers

/-!
# Gathering

Every joiner has sent its JOIN, and from then on the members only answer: nothing
is lost, nothing comes twice, and datagrams arrive in any order.

The host lets the joiners in one after the other. The order in which it does is a
`Roster`; the id of a member is its place there. `Gathered` says how far every
joiner and every pair of members has come.
-/

set_option autoImplicit false

namespace VoiceChat

/-! ## The order of admission -/

/-- The members that have an id, the host first, in the order in which they got it. -/
structure Roster (J : Type) where
  members : List (Member J)
  first : members.head? = some .host
  nodup : members.Nodup
  few : members.length ≤ maxPeers

namespace Roster

variable {J : Type}

/-- Only the host. -/
def start : Roster J := ⟨[.host], rfl, List.nodup_singleton _, (by decide : 1 ≤ maxPeers)⟩

/-- One more member is let in. -/
def letIn (roster : Roster J) (p : Member J) (new : p ∉ roster.members)
    (room : roster.members.length < maxPeers) : Roster J where
  members := roster.members ++ [p]
  first := by rw [List.head?_append, roster.first, Option.some_or]
  nodup := List.nodup_append.mpr ⟨roster.nodup, List.nodup_singleton p,
    fun _ member _ last same => new (List.mem_singleton.mp last ▸ same ▸ member)⟩
  few := by
    rw [List.length_append, List.length_singleton]
    exact room

theorem host_mem (roster : Roster J) : .host ∈ roster.members :=
  List.mem_of_mem_head? roster.first

variable [DecidableEq J] (roster : Roster J)

def place (p : Member J) : ℕ := roster.members.idxOf p

def id (p : Member J) : UInt8 := UInt8.ofNat (roster.place p)

variable {roster} {p q : Member J}

theorem place_lt (member : p ∈ roster.members) : roster.place p < roster.members.length :=
  List.idxOf_lt_length_of_mem member

theorem place_inj (member : p ∈ roster.members) : roster.place p = roster.place q ↔ p = q :=
  List.idxOf_inj member

theorem place_host (roster : Roster J) : roster.place .host = 0 := by
  obtain ⟨rest, same⟩ := List.head?_eq_some_iff.mp roster.first
  rw [place, same]
  exact List.idxOf_cons_self

theorem id_toNat (member : p ∈ roster.members) : (roster.id p).toNat = roster.place p := by
  have := place_lt member
  have := roster.few
  have : maxPeers = 5 := rfl
  have : UInt8.size = 256 := rfl
  exact UInt8.toNat_ofNat_of_lt' (by omega)

/-- **Different members have different ids.** -/
theorem id_inj (member : p ∈ roster.members) (member' : q ∈ roster.members) :
    roster.id p = roster.id q ↔ p = q := by
  rw [← place_inj member, ← id_toNat member, ← id_toNat member', UInt8.toNat_inj]

theorem id_host (roster : Roster J) : roster.id .host = 0 :=
  congrArg UInt8.ofNat (place_host roster)

theorem id_ne_zero (member : p ∈ roster.members) (joined : p ≠ .host) : roster.id p ≠ 0 := by
  rw [← id_host roster]
  exact fun same => joined ((id_inj member roster.host_mem).mp same)

/-! ### Growing -/

/-- Only later members are added. -/
def Extends (roster roster' : Roster J) : Prop := roster.members <+: roster'.members

omit [DecidableEq J] in
theorem Extends.refl (roster : Roster J) : roster.Extends roster := List.prefix_refl _

section Extends

variable {roster' : Roster J} (more : roster.Extends roster')

include more

omit [DecidableEq J] in
theorem Extends.mem (member : p ∈ roster.members) : p ∈ roster'.members := more.subset member

theorem Extends.place (member : p ∈ roster.members) : roster'.place p = roster.place p := by
  obtain ⟨later, same⟩ := more
  rw [Roster.place, ← same]
  exact List.idxOf_append_of_mem member

theorem Extends.id (member : p ∈ roster.members) : roster'.id p = roster.id p :=
  congrArg UInt8.ofNat (more.place member)

/-- Whoever stands before an earlier member is an earlier member. -/
theorem Extends.mem_of_place_le (member : p ∈ roster.members)
    (before : roster'.place q ≤ roster'.place p) : q ∈ roster.members := by
  rw [more.place member] at before
  obtain ⟨later, same⟩ := more
  by_contra out
  have behind : roster.members.length ≤ roster'.place q := by
    rw [Roster.place, ← same, List.idxOf_append_of_notMem out]
    exact Nat.le_add_right ..
  exact Nat.not_lt.mpr (behind.trans before) (place_lt member)

end Extends

variable {new : p ∉ roster.members} {room : roster.members.length < maxPeers}

omit [DecidableEq J] in
theorem extends_letIn : roster.Extends (roster.letIn p new room) := List.prefix_append ..

omit [DecidableEq J] in
theorem mem_letIn : q ∈ (roster.letIn p new room).members ↔ q ∈ roster.members ∨ q = p := by
  rw [letIn, List.mem_append, List.mem_singleton]

theorem place_letIn_self : (roster.letIn p new room).place p = roster.members.length := by
  rw [place, letIn, List.idxOf_append_of_notMem new, List.idxOf_cons_self, Nat.add_zero]

/-- The last one let in stands behind everybody. -/
theorem place_le_letIn (member : q ∈ (roster.letIn p new room).members) :
    (roster.letIn p new room).place q ≤ (roster.letIn p new room).place p := by
  have behind := place_lt member
  rw [place_letIn_self]
  rw [letIn, List.length_append, List.length_singleton] at behind
  exact Nat.le_of_lt_succ behind

omit [DecidableEq J] in
/-- Whoever has not been let in can be. -/
theorem length_lt {joiners : List J} (everybody : ∀ j, j ∈ joiners)
    (few : joiners.length ≤ maxPeers - 1) {j : J} (out : .joiner j ∉ roster.members) :
    roster.members.length < maxPeers := by
  have distinct : (.joiner j :: roster.members).Nodup := List.nodup_cons.mpr ⟨out, roster.nodup⟩
  have inside : .joiner j :: roster.members ⊆ .host :: joiners.map .joiner := by
    intro p _
    cases p with
    | host => exact List.mem_cons_self
    | joiner k => exact List.mem_cons_of_mem _ (List.mem_map_of_mem (everybody k))
  have short := (List.subperm_of_subset distinct inside).length_le
  rw [List.length_cons, List.length_cons, List.length_map] at short
  exact Nat.lt_of_succ_le (short.trans (Nat.succ_le_of_lt (Nat.lt_of_le_of_lt few (by decide))))

end Roster

/-! ## Deliveries -/

namespace Call

variable {J D : Type} (prim : Primitives D) (call : Call J)

/-- The members answer what is in flight. -/
def postal [DecidableEq J] : Machine (Post (Member J) (Node D) Emission)
    (Member J × (Member J × Emission) × Env D) (Member J × Emission) :=
  Post.machine (nodeMachine prim) fun m env => (env, .recv m.2.wire (call.addr m.1))

/-- Every joiner has sent its JOIN. -/
def joining (joiners : List J) (envs : J → Env D) (ports : J → UInt16) :
    Post (Member J) (Node D) Emission where
  node := call.node
  inFlight := joiners.flatMap fun j =>
    ((call.node (.joiner j)).sendJoin prim (envs j) (ports j) (call.addr .host)).out.map
      (Prod.mk (.joiner j))

/-- A datagram in flight is handed to the member it was sent to, where nothing
fails. -/
structure HandsOver (post : Post (Member J) (Node D) Emission)
    (input : Member J × (Member J × Emission) × Env D) : Prop where
  flying : input.2.1 ∈ post.inFlight
  addressed : input.2.1.2.dst = call.addr input.1
  works : input.2.2.Works
  /-- The host finds out the address to list for itself. -/
  listed : input.1 = .host →
    ∃ hostAddr, Node.listedAddr input.2.2 (call.addr input.2.1.1) = .ok hostAddr

/-- No HELLO reaches a joiner that has not handled its peer list. -/
def InTurn (post : Post (Member J) (Node D) Emission)
    (input : Member J × (Member J × Emission) × Env D) : Prop :=
  input.2.1.2.header.pktType = pktHello → input.1 ≠ .host →
    (post.node input.1).peerMgr.localId ≠ 0

instance (post : Post (Member J) (Node D) Emission)
    (input : Member J × (Member J × Emission) × Env D) [DecidableEq J] :
    Decidable (InTurn post input) :=
  inferInstanceAs (Decidable (_ → _ → _))

/-- No member is at the address that a peer list gives for another joiner: peer
lists drop the flow info and the scope of IPv6 addresses. -/
def Apart : Prop := ∀ j p, call.addr p = (call.addr (.joiner j)).listed → p = .joiner j

/-- An address for a member, as it is or as a peer list gives it. -/
def Names (p : Member J) (dst : SocketAddr) : Prop :=
  dst = call.addr p ∨ ∃ j, p = .joiner j ∧ dst = (call.addr p).listed

variable {call}

/-- Whoever is at an address for a member is the member. -/
theorem Apart.eq_of_names (apart : call.Apart) {p r : Member J}
    (names : call.Names p (call.addr r)) : r = p := by
  rcases names with same | ⟨j, rfl, same⟩
  · exact call.distinct same
  · exact apart j r same

/-! ## How far the members have come -/

section Progress

variable [DecidableEq J] (call)

/-- A member that has its id: it is in the session, and knows only other members. -/
structure Seated (roster : Roster J) (p : Member J) (node : Node D) : Prop where
  localId : node.peerMgr.localId = roster.id p
  sessionId : node.peerMgr.sessionId = call.sessionId
  key : node.key = call.key
  inside : ∀ id, node.Knows id → ∃ q ∈ roster.members, q ≠ p ∧ id = roster.id q

/-- The host is connected to everybody on the roster, each at its own address. -/
structure Hosting (roster : Roster J) (node : Node D) : Prop where
  isHost : node.peerMgr.isHost = true
  localId : node.peerMgr.localId = 0
  sessionId : node.peerMgr.sessionId = call.sessionId
  key : node.key = call.key
  next : node.peerMgr.nextPeerId.toNat = roster.members.length
  connected : ∀ q ∈ roster.members, q ≠ .host → node.Connected (roster.id q)
  table : ∀ id peer, node.getPeer id = some peer → peer.id = id ∧
    ∃ q ∈ roster.members, q ≠ .host ∧ id = roster.id q ∧ peer.addr = call.addr q

/-- A peer list for a joiner: everybody up to it, each at its own address. The
address of the host does not matter. -/
structure Listing (roster : Roster J) (j : J) (list : PeerListPayload) : Prop where
  sessionId : list.sessionId = call.sessionId
  distinct : (list.peers.map Prod.fst).Nodup
  entries : ∀ entry ∈ list.peers, ∃ q ∈ roster.members,
    roster.place q ≤ roster.place (.joiner j) ∧ entry.1 = roster.id q ∧
      (q ≠ .host → entry.2 = call.addr q)
  everybody : ∀ q ∈ roster.members, roster.place q ≤ roster.place (.joiner j) →
    roster.id q ∈ list.peers.map Prod.fst

/-- A joiner has done nothing yet. -/
def Fresh (post : Post (Member J) (Node D) Emission) (j : J) : Prop :=
  post.node (.joiner j) = call.node (.joiner j)

/-- What can be in flight. -/
inductive Flies (roster : Roster J) (post : Post (Member J) (Node D) Emission) :
    Member J × Emission → Prop where
  /-- The JOIN of a joiner that the host has not let in. -/
  | join {j : J} {e : Emission} (listenPort : UInt16) (out : .joiner j ∉ roster.members)
      (carries : e.Carries prim.aead (CryptoContext.new call.key zeroSession) ⟨pktJoin, 0, 0, 0⟩
        (JoinPayload.toBytes ⟨listenPort⟩) (call.addr .host)) :
      Flies roster post (.joiner j, e)
  /-- The peer list for a joiner that has done nothing yet. -/
  | peerList {j : J} {e : Emission} (list : PeerListPayload) (on : .joiner j ∈ roster.members)
      (fresh : call.Fresh post j) (listing : call.Listing roster j list)
      (carries : e.Carries prim.aead (CryptoContext.new call.key zeroSession)
        ⟨pktPeerList, 0, 0, 0⟩ list.toBytes (call.addr (.joiner j))) :
      Flies roster post (.host, e)
  /-- A HELLO to a member that was let in earlier. -/
  | hello {p q : Member J} {e : Emission} {dst : SocketAddr} (older : p ∈ roster.members)
      (younger : q ∈ roster.members) (order : roster.place p < roster.place q)
      (seated : call.Seated roster q (post.node q)) (knows : (post.node q).Knows (roster.id p))
      (carries : e.Carries prim.aead (CryptoContext.new call.key call.sessionId)
        ⟨pktHello, roster.id q, 0, 0⟩ [] dst) (names : call.Names p dst) :
      Flies roster post (q, e)
  /-- A HELLO_ACK to a member that was let in later. -/
  | helloAck {p q : Member J} {e : Emission} (older : p ∈ roster.members)
      (younger : q ∈ roster.members) (order : roster.place p < roster.place q)
      (seated : call.Seated roster q (post.node q)) (knows : (post.node q).Knows (roster.id p))
      (connected : (post.node p).Connected (roster.id q))
      (carries : e.Carries prim.aead (CryptoContext.new call.key call.sessionId)
        ⟨pktHelloAck, roster.id p, 0, 0⟩ [] (call.addr q)) :
      Flies roster post (p, e)

/-- Where a joiner stands: its JOIN is in flight, or its peer list, or it has its
id. -/
inductive Stage (roster : Roster J) (post : Post (Member J) (Node D) Emission) (j : J) : Prop where
  | joining (e : Emission) (out : .joiner j ∉ roster.members) (fresh : call.Fresh post j)
      (flying : (.joiner j, e) ∈ post.inFlight) (type : e.header.pktType = pktJoin)
  | listed (m : Member J × Emission) (on : .joiner j ∈ roster.members)
      (fresh : call.Fresh post j) (flying : m ∈ post.inFlight)
      (type : m.2.header.pktType = pktPeerList) (dst : m.2.dst = call.addr (.joiner j))
  | seated (on : .joiner j ∈ roster.members)
      (seated : call.Seated roster (.joiner j) (post.node (.joiner j)))

/-- Where a pair of members stands, the older one first: the HELLO is in flight, or
the HELLO_ACK, or both are connected. -/
inductive Paired (roster : Roster J) (post : Post (Member J) (Node D) Emission)
    (p q : Member J) : Prop where
  | greeted (e : Emission) (flying : (q, e) ∈ post.inFlight) (type : e.header.pktType = pktHello)
      (names : call.Names p e.dst) (knows : (post.node q).Knows (roster.id p))
  | answered (e : Emission) (flying : (p, e) ∈ post.inFlight)
      (type : e.header.pktType = pktHelloAck) (dst : e.dst = call.addr q)
      (knows : (post.node q).Knows (roster.id p))
      (connected : (post.node p).Connected (roster.id q))
  | connected (older : (post.node p).Connected (roster.id q))
      (younger : (post.node q).Connected (roster.id p))

/-- The JOIN of a joiner, or the peer list for it. -/
def Opening (j : J) (m : Member J × Emission) : Prop :=
  m.2.header.pktType = pktJoin ∧ m.1 = .joiner j ∨
    m.2.header.pktType = pktPeerList ∧ m.2.dst = call.addr (.joiner j)

instance (j : J) : DecidablePred (call.Opening j) := fun _ =>
  inferInstanceAs (Decidable (_ ∧ _ ∨ _ ∧ _))

/-- How far the call has come. -/
structure Gathered (roster : Roster J) (post : Post (Member J) (Node D) Emission) : Prop where
  hosting : call.Hosting roster (post.node .host)
  stages : ∀ j, call.Stage roster post j
  pairs : ∀ p ∈ roster.members, ∀ q ∈ roster.members, roster.place p < roster.place q →
    (post.node q).peerMgr.localId = roster.id q → call.Paired roster post p q
  flies : ∀ m ∈ post.inFlight, call.Flies prim roster post m
  once : ∀ j, post.inFlight.countP (call.Opening j) ≤ 1

/-! ### What follows from the parts -/

variable {prim call} {roster roster' : Roster J} {post post' : Post (Member J) (Node D) Emission}

/-- A joiner that has done nothing has no id. -/
theorem Fresh.localId_ne {j : J} (fresh : call.Fresh post j) (on : .joiner j ∈ roster.members) :
    (post.node (.joiner j)).peerMgr.localId ≠ roster.id (.joiner j) := by
  rw [fresh]
  exact (Roster.id_ne_zero on (fun same => by cases same)).symm

theorem Seated.mono {p : Member J} {node : Node D} (seated : call.Seated roster p node)
    (on : p ∈ roster.members) (more : roster.Extends roster') : call.Seated roster' p node where
  localId := seated.localId.trans (more.id on).symm
  sessionId := seated.sessionId
  key := seated.key
  inside id known := by
    obtain ⟨q, member, other, rfl⟩ := seated.inside id known
    exact ⟨q, more.mem member, other, (more.id member).symm⟩

/-- Whoever is on the roster and not in the table takes up no room there. -/
theorem Seated.size_le {p : Member J} {node : Node D} (seated : call.Seated roster p node)
    (absent : List (Member J)) (distinct : absent.Nodup)
    (on : ∀ q ∈ absent, q ∈ roster.members)
    (unknown : ∀ q ∈ absent, q = p ∨ ¬ node.Knows (roster.id q)) :
    node.peerMgr.peers.size + absent.length ≤ roster.members.length := by
  have ids : (absent.map roster.id).Nodup :=
    distinct.map_on fun q member q' member' same =>
      (Roster.id_inj (on q member) (on q' member')).mp same
  have apart : ∀ id ∈ node.peerMgr.peers.keys, id ∉ absent.map roster.id := by
    intro id key member
    obtain ⟨q, missing, rfl⟩ := List.mem_map.mp member
    have known : node.Knows (roster.id q) := HashMap.mem_iff_lookup.mp (AList.mem_keys.mpr key)
    rcases unknown q missing with rfl | stranger
    · obtain ⟨q', member', other, same⟩ := seated.inside _ known
      exact other ((Roster.id_inj (on q missing) member').mp same).symm
    · exact stranger known
  have everybody : (node.peerMgr.peers.keys ++ absent.map roster.id).Nodup :=
    List.nodup_append.mpr ⟨node.peerMgr.peers.keys_nodup, ids,
      fun id key id' member same => apart id key (same ▸ member)⟩
  have inside : node.peerMgr.peers.keys ++ absent.map roster.id ⊆ roster.members.map roster.id := by
    refine List.append_subset.mpr ⟨fun id key => ?_, List.map_subset _ on⟩
    obtain ⟨q, member, _, rfl⟩ := seated.inside id
      (HashMap.mem_iff_lookup.mp (AList.mem_keys.mpr key))
    exact List.mem_map_of_mem member
  have short := (List.subperm_of_subset everybody inside).length_le
  rwa [List.length_append, List.length_map, List.length_map] at short

/-- **There is room** for a member that is not in the table. -/
theorem Seated.room {p q : Member J} {node : Node D} (seated : call.Seated roster p node)
    (on : p ∈ roster.members) (on' : q ∈ roster.members) (other : q ≠ p)
    (stranger : ¬ node.Knows (roster.id q)) : node.peerMgr.peers.size < maxPeers - 1 := by
  have size := seated.size_le [p, q] (by simpa using other.symm)
    (List.forall_mem_cons.mpr ⟨on, List.forall_mem_singleton.mpr on'⟩)
    (List.forall_mem_cons.mpr ⟨Or.inl rfl, List.forall_mem_singleton.mpr (Or.inr stranger)⟩)
  have few := roster.few
  rw [List.length_cons, List.length_singleton] at size
  omega

/-- There is room for one more when the roster has room. -/
theorem Seated.room_of_lt {p : Member J} {node : Node D} (seated : call.Seated roster p node)
    (on : p ∈ roster.members) (left : roster.members.length < maxPeers) :
    node.peerMgr.peers.size < maxPeers - 1 := by
  have size := seated.size_le [p] (List.nodup_singleton p)
    (List.forall_mem_singleton.mpr on) (List.forall_mem_singleton.mpr (Or.inl rfl))
  rw [List.length_singleton] at size
  omega

theorem Hosting.seated {node : Node D} (hosting : call.Hosting roster node) :
    call.Seated roster .host node where
  localId := hosting.localId.trans (Roster.id_host roster).symm
  sessionId := hosting.sessionId
  key := hosting.key
  inside := by
    rintro id ⟨peer, known⟩
    obtain ⟨_, q, member, other, same, _⟩ := hosting.table id peer known
    exact ⟨q, member, other, same⟩

/-- The next id is not in use. -/
theorem Hosting.id_ne {node : Node D} (hosting : call.Hosting roster node) {q : Member J}
    (on : q ∈ roster.members) : roster.id q ≠ node.peerMgr.nextPeerId := by
  intro same
  have behind := Roster.place_lt on
  rw [← Roster.id_toNat on, same, hosting.next] at behind
  exact lt_irrefl _ behind

/-- The next id goes to the next one let in. -/
theorem Hosting.id_letIn {node : Node D} (hosting : call.Hosting roster node) {p : Member J}
    (out : p ∉ roster.members) (room : roster.members.length < maxPeers) :
    (roster.letIn p out room).id p = node.peerMgr.nextPeerId := by
  have on : p ∈ (roster.letIn p out room).members := Roster.mem_letIn.mpr (Or.inr rfl)
  rw [← UInt8.toNat_inj, Roster.id_toNat on, Roster.place_letIn_self, hosting.next]

/-- A known peer is connected again. -/
theorem Hosting.connect {node : Node D} (hosting : call.Hosting roster node)
    {peerMgr : PeerManager D} {k : UInt8} {peer : RemotePeer D} {now : Instant}
    (known : node.getPeer k = some peer) (localId : peerMgr.localId = node.peerMgr.localId)
    (sessionId : peerMgr.sessionId = node.peerMgr.sessionId)
    (isHost : peerMgr.isHost = node.peerMgr.isHost)
    (next : peerMgr.nextPeerId = node.peerMgr.nextPeerId)
    (table : ∀ id, peerMgr.getPeer id =
      if id = k then some (peer.connect now) else node.getPeer id) :
    call.Hosting roster { node with peerMgr := peerMgr } where
  isHost := isHost.trans hosting.isHost
  localId := localId.trans hosting.localId
  sessionId := sessionId.trans hosting.sessionId
  key := hosting.key
  next := (congrArg UInt8.toNat next).trans hosting.next
  connected q on guest := by
    have gained : Node.Gains node { node with peerMgr := peerMgr } :=
      Node.Gains.of_connect table rfl
    exact gained.connected _ (hosting.connected q on guest)
  table id entry found := by
    have found' := (table id).symm.trans found
    split_ifs at found' with same
    · cases found'
      rw [same]
      exact hosting.table k peer known
    · exact hosting.table id entry found'

/-- One more joiner is let in. -/
theorem Hosting.letIn {node : Node D} (hosting : call.Hosting roster node) {p : Member J}
    (guest : p ≠ .host) (out : p ∉ roster.members) (room : roster.members.length < maxPeers)
    {peerMgr : PeerManager D} {peer : RemotePeer D}
    (localId : peerMgr.localId = node.peerMgr.localId)
    (sessionId : peerMgr.sessionId = node.peerMgr.sessionId) (isHost : peerMgr.isHost = true)
    (next : peerMgr.nextPeerId = node.peerMgr.nextPeerId + 1)
    (table : ∀ id, peerMgr.getPeer id =
      if id = node.peerMgr.nextPeerId then some peer else node.getPeer id)
    (own : peer.id = node.peerMgr.nextPeerId) (addr : peer.addr = call.addr p)
    (state : peer.state = .connected) :
    call.Hosting (roster.letIn p out room) { node with peerMgr := peerMgr } where
  isHost := isHost
  localId := localId.trans hosting.localId
  sessionId := sessionId.trans hosting.sessionId
  key := hosting.key
  next := by
    change peerMgr.nextPeerId.toNat = (roster.members ++ [p]).length
    rw [next, PeerManager.nextPeerId_succ_toNat (hosting.next ▸ room), hosting.next,
      List.length_append, List.length_singleton]
  connected q on guest' := by
    rcases Roster.mem_letIn.mp on with before | rfl
    · have gained : Node.Gains node { node with peerMgr := peerMgr } :=
        Node.Gains.of_connect table state
      rw [Roster.extends_letIn.id before]
      exact gained.connected _ (hosting.connected q before guest')
    · rw [hosting.id_letIn]
      exact ⟨peer, (table _).trans (if_pos rfl), state⟩
  table id entry found := by
    have found' := (table id).symm.trans found
    split_ifs at found' with new
    · cases found'
      exact ⟨own.trans new.symm, p, Roster.mem_letIn.mpr (Or.inr rfl), guest,
        new.trans (hosting.id_letIn out room).symm, addr⟩
    · obtain ⟨own', q, on, guest', same, addr'⟩ := hosting.table id entry found'
      exact ⟨own', q, Roster.extends_letIn.mem on, guest',
        same.trans (Roster.extends_letIn.id on).symm, addr'⟩

/-- **The list that the host builds** names everybody on the roster. -/
theorem Hosting.listing {node : Node D} (hosting : call.Hosting roster node) {j : J}
    (last : ∀ q ∈ roster.members, roster.place q ≤ roster.place (.joiner j))
    (hostAddr : SocketAddr) (order : HashOrder UInt8) :
    call.Listing roster j (node.peerMgr.buildPeerList hostAddr order) := by
  have ids : (node.peerMgr.buildPeerList hostAddr order).peers.map Prod.fst =
      0 :: order.1 node.peerMgr.peers.keys := by
    rw [PeerManager.buildPeerList, List.map_cons, List.map_map, hosting.localId]
    exact congrArg _
      (HashMap.map_values (fun id peer found => (hosting.table id peer found).1) order)
  refine ⟨hosting.sessionId, ?_, fun entry member => ?_, fun q member _ => ?_⟩
  · rw [ids]
    refine List.nodup_cons.mpr ⟨fun member => ?_, (order.2 _).nodup_iff.mpr
      node.peerMgr.peers.keys_nodup⟩
    have key := AList.mem_keys.mpr ((order.2 _).mem_iff.mp member)
    obtain ⟨q, on, other, same⟩ := hosting.seated.inside 0 (HashMap.mem_iff_lookup.mp key)
    exact Roster.id_ne_zero on other same.symm
  · rcases List.mem_cons.mp member with rfl | member
    · exact ⟨.host, roster.host_mem, last _ roster.host_mem,
        hosting.localId.trans (Roster.id_host roster).symm, fun other => absurd rfl other⟩
    · obtain ⟨peer, found, rfl⟩ := List.mem_map.mp member
      obtain ⟨id, known⟩ := HashMap.mem_values.mp found
      obtain ⟨own, q, on, _, same, addr⟩ := hosting.table id peer known
      exact ⟨q, on, last q on, own.trans same, fun _ => addr⟩
  · rw [ids]
    by_cases host : q = .host
    · subst host
      rw [Roster.id_host]
      exact List.mem_cons_self
    · obtain ⟨peer, known, _⟩ := hosting.connected q member host
      exact List.mem_cons_of_mem _ ((order.2 _).mem_iff.mpr
        (AList.mem_keys.mp (HashMap.mem_iff_lookup.mpr ⟨peer, known⟩)))

namespace Listing

variable {j : J} {list : PeerListPayload} (listing : call.Listing roster j list)

include listing

theorem mono (on : .joiner j ∈ roster.members) (more : roster.Extends roster') :
    call.Listing roster' j list where
  sessionId := listing.sessionId
  distinct := listing.distinct
  entries entry member := by
    obtain ⟨q, inside, before, same, addr⟩ := listing.entries entry member
    refine ⟨q, more.mem inside, ?_, same.trans (more.id inside).symm, addr⟩
    rwa [more.place inside, more.place on]
  everybody q member before := by
    have inside := more.mem_of_place_le on before
    rw [more.place inside, more.place on] at before
    rw [more.id inside]
    exact listing.everybody q inside before

theorem length_le : list.peers.length ≤ maxPeers := by
  have inside : list.peers.map Prod.fst ⊆ roster.members.map roster.id := by
    intro id member
    obtain ⟨entry, listed, rfl⟩ := List.mem_map.mp member
    obtain ⟨q, on, _, same, _⟩ := listing.entries entry listed
    exact same ▸ List.mem_map_of_mem on
  have short := (List.subperm_of_subset listing.distinct inside).length_le
  rw [List.length_map, List.length_map] at short
  exact short.trans roster.few

/-- **The largest id of the list** is that of the joiner it is for. -/
theorem maxId (on : .joiner j ∈ roster.members) :
    Node.maxId list.peers = some (roster.id (.joiner j)) := by
  refine Node.maxId_eq_some.mpr ⟨listing.everybody _ on le_rfl, fun id member => ?_⟩
  obtain ⟨entry, listed, rfl⟩ := List.mem_map.mp member
  obtain ⟨q, inside, before, same, _⟩ := listing.entries entry listed
  rw [same, UInt8.le_iff_toNat_le, Roster.id_toNat inside, Roster.id_toNat on]
  exact before

/-- The others on a received list: everybody that was let in earlier, each under an
address for it. -/
theorem others {entry : UInt8 × SocketAddr}
    (member : entry ∈ (list.peers.map fun entry => (entry.1, entry.2.listed)).filter
      (·.1 ≠ roster.id (.joiner j))) :
    ∃ q ∈ roster.members, roster.place q < roster.place (.joiner j) ∧ entry.1 = roster.id q ∧
      call.Names q (if entry.1 = 0 then call.addr .host else entry.2) := by
  obtain ⟨heard, other⟩ := List.mem_filter.mp member
  obtain ⟨sent, listed, rfl⟩ := List.mem_map.mp heard
  obtain ⟨q, inside, before, same, addr⟩ := listing.entries sent listed
  have different : q ≠ .joiner j := by
    rintro rfl
    exact of_decide_eq_true other same
  refine ⟨q, inside, lt_of_le_of_ne before fun level =>
    different ((Roster.place_inj inside).mp level), same, ?_⟩
  by_cases host : q = .host
  · subst host
    rw [if_pos (same.trans (Roster.id_host roster))]
    exact Or.inl rfl
  · rw [if_neg (fun zero => Roster.id_ne_zero inside host (same.symm.trans zero)), addr host]
    cases q with
    | host => exact absurd rfl host
    | joiner k => exact Or.inr ⟨k, rfl, rfl⟩

/-- Everybody that was let in earlier is on a received list. -/
theorem exists_other {q : Member J} (inside : q ∈ roster.members) (on : .joiner j ∈ roster.members)
    (before : roster.place q < roster.place (.joiner j)) :
    ∃ entry ∈ (list.peers.map fun entry => (entry.1, entry.2.listed)).filter
      (·.1 ≠ roster.id (.joiner j)), entry.1 = roster.id q := by
  obtain ⟨entry, listed, same⟩ := List.mem_map.mp (listing.everybody q inside before.le)
  refine ⟨(entry.1, entry.2.listed), List.mem_filter.mpr ⟨List.mem_map_of_mem listed, ?_⟩, same⟩
  refine decide_eq_true fun own => ?_
  have alike := (Roster.id_inj inside on).mp (same.symm.trans own)
  exact absurd before (by rw [alike]; exact lt_irrefl _)

theorem nodup_others : (((list.peers.map fun entry => (entry.1, entry.2.listed)).filter
    (·.1 ≠ roster.id (.joiner j))).map Prod.fst).Nodup := by
  refine List.Nodup.sublist (List.filter_sublist.map Prod.fst) ?_
  rw [List.map_map]
  exact listing.distinct

/-- There is room for all of them. -/
theorem length_others_le (on : .joiner j ∈ roster.members) :
    ((list.peers.map fun entry => (entry.1, entry.2.listed)).filter
      (·.1 ≠ roster.id (.joiner j))).length ≤ maxPeers - 1 := by
  have inside : ((list.peers.map fun entry => (entry.1, entry.2.listed)).filter
      (·.1 ≠ roster.id (.joiner j))).map Prod.fst ⊆
        (roster.members.erase (.joiner j)).map roster.id := by
    intro id member
    obtain ⟨entry, other, rfl⟩ := List.mem_map.mp member
    obtain ⟨q, on', before, same, _⟩ := listing.others other
    have different : q ≠ .joiner j := by
      rintro rfl
      exact lt_irrefl _ before
    exact same ▸ List.mem_map_of_mem (roster.nodup.mem_erase_iff.mpr ⟨different, on'⟩)
  have short := (List.subperm_of_subset listing.nodup_others inside).length_le
  rw [List.length_map, List.length_map, List.length_erase_of_mem on] at short
  exact short.trans (Nat.sub_le_sub_right roster.few 1)

end Listing

end Progress

end Call

theorem Sample.call_apart : Sample.call.Apart := by
  rintro (_ | _) (_ | _ | _) same
  all_goals first
    | rfl
    | exact absurd same (by decide)

end VoiceChat
