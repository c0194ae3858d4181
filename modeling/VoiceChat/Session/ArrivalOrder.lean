import VoiceChat.Jitter.Playlist
import VoiceChat.Session.Frame

/-!
# Decoding in the order of arrival

An audio packet is decoded when it arrives, and the samples are buffered. The decoder is
stateful, so the samples of a packet depend on the packets that arrived before it, not on
those that come before it in sequence; the buffer then puts in order what was decoded out
of order.

`arrival_order_iff` says when this goes unheard. What a peer plays after a burst is its
playlist, filled up with concealments of the decoder (`playedAt_eq`). So the order goes
unheard when the decoder conceals alike after every order and the burst leaves one
playlist. The playlist depends on the order in three ways: the decoder may give a packet
other samples, the buffer may refuse the packets that come last (`room_of_playlist_eq`), and
a packet that lies more than half the circle from the first buffered frame may or may not
become the first one (`oneSided_of_playlist_eq`).
-/

set_option autoImplicit false

namespace VoiceChat

open SerialNumber

namespace Node

variable {D : Type} (prim : Primitives D)

/-! ## Arrivals and ticks -/

/-- A peer after audio packets were taken in, in this order. -/
def arrive (peer : RemotePeer D) (packets : List (UInt16 × Bytes)) : RemotePeer D :=
  packets.foldl (fun peer packet => (bufferFrame prim peer packet.1 packet.2).1) peer

/-- A peer after some playout ticks. -/
def afterTicks (peer : RemotePeer D) (ticks : ℕ) : RemotePeer D :=
  (fun peer => (playPeer prim peer).1)^[ticks] peer

/-- What the playout tick after so many others pops from a peer, and what it mixes. -/
def playedAt (peer : RemotePeer D) (ticks : ℕ) : Option Pcm × Option Pcm :=
  let peer := afterTicks prim peer ticks
  (if peer.state = .connected then peer.jitterBuffer.pop.1 else none, (playPeer prim peer).2)

/-- Packets under consecutive numbers. -/
def numbered (first : UInt16) (burst : List Bytes) : List (UInt16 × Bytes) :=
  burst.zipIdx.map fun entry => (first + UInt16.ofNat entry.2, entry.1)

/-! ## What is decoded -/

/-- Decode packets one after the other: the decoder in the end, and the packets that were
decoded, with their samples. -/
def decodeAll (decoder : D) : List (UInt16 × Bytes) → D × List (UInt16 × Pcm)
  | [] => (decoder, [])
  | (seqNum, payload) :: rest =>
      let (decoder, decoded) := prim.decode decoder payload
      let (decoder, others) := decodeAll decoder rest
      (decoder, decoded.toList.map (seqNum, ·) ++ others)

/-- A decoder after some concealments. -/
def afterPlc (decoder : D) (count : ℕ) : D :=
  (fun decoder => (prim.decodePlc decoder).1)^[count] decoder

/-- The samples of the concealment after so many others. -/
def concealedAt (decoder : D) (count : ℕ) : Option Pcm :=
  (prim.decodePlc (afterPlc prim decoder count)).2

/-- Two decoders conceal alike for ever. -/
def ConcealAlike (decoder decoder' : D) : Prop :=
  ∀ count, concealedAt prim decoder count = concealedAt prim decoder' count

/-- **Arrivals decode and push**: they leave the decoder and the buffer that decoding all
packets in this order leaves, and everything else as it was. -/
theorem arrive_eq (peer : RemotePeer D) (packets : List (UInt16 × Bytes)) :
    arrive prim peer packets = { peer with
      decoder := (decodeAll prim peer.decoder packets).1
      jitterBuffer := peer.jitterBuffer.run
        (JitterBuffer.pushes (decodeAll prim peer.decoder packets).2) } := by
  induction packets generalizing peer with
  | nil => rfl
  | cons packet rest ih =>
      obtain ⟨seqNum, payload⟩ := packet
      change arrive prim (bufferFrame prim peer seqNum payload).1 rest = _
      rw [ih, decodeAll]
      dsimp only
      unfold bufferFrame
      cases decoded : (prim.decode peer.decoder payload).2 with
      | none => simp [decoded]
      | some pcm =>
          simp only [decoded, Option.toList_some, List.map_singleton, List.singleton_append]
          rfl

theorem arrive_state (peer : RemotePeer D) (packets : List (UInt16 × Bytes)) :
    (arrive prim peer packets).state = peer.state := by
  rw [arrive_eq]

/-! ## What is played -/

/-- A tick of a connected peer pops, and conceals when nothing is popped. -/
theorem playPeer_connected {peer : RemotePeer D} (connected : peer.state = .connected) :
    playPeer prim peer = match peer.jitterBuffer.pop.1 with
      | some pcm => ({ peer with jitterBuffer := peer.jitterBuffer.pop.2 }, some pcm)
      | none => ({ peer with
          jitterBuffer := peer.jitterBuffer.pop.2
          decoder := (prim.decodePlc peer.decoder).1 }, (prim.decodePlc peer.decoder).2) :=
  if_neg fun other => other connected

theorem afterTicks_succ (peer : RemotePeer D) (ticks : ℕ) :
    afterTicks prim peer (ticks + 1) = (playPeer prim (afterTicks prim peer ticks)).1 :=
  Function.iterate_succ_apply' ..

/-- How often nothing is popped in the first ticks. -/
def misses (jb : JitterBuffer Pcm) (ticks : ℕ) : ℕ :=
  Nat.count (fun count => jb.popAt count = none) ticks

/-- **After some ticks** a connected peer has popped as often, and concealed as often as
nothing was popped. -/
theorem afterTicks_eq {peer : RemotePeer D} (connected : peer.state = .connected) (ticks : ℕ) :
    afterTicks prim peer ticks = { peer with
      jitterBuffer := peer.jitterBuffer.afterPops ticks
      decoder := afterPlc prim peer.decoder (misses peer.jitterBuffer ticks) } := by
  induction ticks with
  | zero => rfl
  | succ ticks ih =>
      have pops : peer.jitterBuffer.afterPops (ticks + 1) =
          (peer.jitterBuffer.afterPops ticks).pop.2 := Function.iterate_succ_apply' ..
      have counted : misses peer.jitterBuffer (ticks + 1) = misses peer.jitterBuffer ticks +
          if peer.jitterBuffer.popAt ticks = none then 1 else 0 := Nat.count_succ ..
      rw [afterTicks_succ, ih, playPeer_connected prim (by exact connected), pops, counted]
      cases popped : peer.jitterBuffer.popAt ticks with
      | some pcm =>
          have now : (peer.jitterBuffer.afterPops ticks).pop.1 = some pcm := popped
          dsimp only
          rw [now, if_neg (Option.some_ne_none pcm)]
          rfl
      | none =>
          have now : (peer.jitterBuffer.afterPops ticks).pop.1 = none := popped
          dsimp only
          rw [now, if_pos rfl, afterPlc, afterPlc, Function.iterate_succ_apply']

/-- **What a peer plays** is what its buffer pops, filled up with concealments. -/
theorem playedAt_eq {peer : RemotePeer D} (connected : peer.state = .connected) (ticks : ℕ) :
    playedAt prim peer ticks = (peer.jitterBuffer.popAt ticks,
      (peer.jitterBuffer.popAt ticks).or
        (concealedAt prim peer.decoder (misses peer.jitterBuffer ticks))) := by
  rw [playedAt, afterTicks_eq prim connected, playPeer_connected prim (by exact connected)]
  dsimp only
  rw [if_pos connected]
  cases popped : peer.jitterBuffer.popAt ticks with
  | some pcm =>
      have now : (peer.jitterBuffer.afterPops ticks).pop.1 = some pcm := popped
      rw [now]
      rfl
  | none =>
      have now : (peer.jitterBuffer.afterPops ticks).pop.1 = none := popped
      rw [now]
      rfl

theorem playedAt_of_not_connected {peer : RemotePeer D} (apart : peer.state ≠ .connected)
    (ticks : ℕ) : playedAt prim peer ticks = (none, none) := by
  have idle : playPeer prim peer = (peer, none) := if_pos apart
  have still : afterTicks prim peer ticks = peer := by
    induction ticks with
    | zero => rfl
    | succ ticks ih =>
        rw [afterTicks, Function.iterate_succ_apply', ← afterTicks, ih, idle]
  rw [playedAt, still, idle]
  dsimp only
  rw [if_neg apart]

/-- **Two peers are played alike** for ever exactly when their buffers have the same
playlist and their decoders conceal alike. -/
theorem playedAt_eq_iff {peer peer' : RemotePeer D} (connected : peer.state = .connected)
    (connected' : peer'.state = .connected) (distinct : peer.jitterBuffer.NoDuplicates)
    (distinct' : peer'.jitterBuffer.NoDuplicates)
    (unplayed : peer.jitterBuffer.nextPlayoutSeq = none)
    (unplayed' : peer'.jitterBuffer.nextPlayoutSeq = none) :
    (∀ ticks, playedAt prim peer ticks = playedAt prim peer' ticks) ↔
      peer.jitterBuffer.playlist = peer'.jitterBuffer.playlist ∧
        ConcealAlike prim peer.decoder peer'.decoder := by
  rw [← JitterBuffer.popAt_eq_iff distinct distinct' unplayed unplayed']
  constructor
  · intro alike
    have pops : ∀ count, peer.jitterBuffer.popAt count = peer'.jitterBuffer.popAt count := by
      intro count
      have here := congrArg Prod.fst (alike count)
      rwa [playedAt_eq prim connected, playedAt_eq prim connected'] at here
    refine ⟨pops, fun count => ?_⟩
    -- the tick of this concealment
    have endless := JitterBuffer.popAt_eq_none_infinite distinct unplayed
    obtain ⟨tick, missed, earlier⟩ : ∃ tick, peer.jitterBuffer.popAt tick = none ∧
        misses peer.jitterBuffer tick = count :=
      ⟨_, Nat.nth_mem_of_infinite endless count, Nat.count_nth_of_infinite endless count⟩
    have mixed := congrArg Prod.snd (alike tick)
    rw [playedAt_eq prim connected, playedAt_eq prim connected'] at mixed
    simp only [misses, ← pops] at mixed
    rwa [← misses, missed, earlier, Option.none_or, Option.none_or] at mixed
  · rintro ⟨pops, conceal⟩ ticks
    rw [playedAt_eq prim connected, playedAt_eq prim connected']
    simp only [misses, ← pops]
    rw [conceal]

/-! ## A burst and its decoding -/

theorem ahead_numbered (first : UInt16) {burst : List Bytes} (short : burst.length ≤ 65536) :
    ((numbered first burst).map fun packet => ahead first packet.1) = List.range burst.length := by
  rw [numbered, List.map_map, List.range_eq_range', ← List.zipIdx_map_snd 0 burst]
  refine List.map_congr_left fun entry member => ?_
  have := (List.mem_zipIdx member).2.1
  exact ahead_add_ofNat first (by omega)

/-- The packets that are decoded keep their numbers. -/
theorem decodeAll_sublist (decoder : D) (packets : List (UInt16 × Bytes)) :
    ((decodeAll prim decoder packets).2.map Prod.fst).Sublist (packets.map Prod.fst) := by
  induction packets generalizing decoder with
  | nil => exact List.Sublist.refl _
  | cons packet rest ih =>
      obtain ⟨seqNum, payload⟩ := packet
      rw [decodeAll]
      dsimp only
      cases (prim.decode decoder payload).2 with
      | none => exact (ih _).cons _
      | some pcm => exact (ih _).cons_cons _

theorem decodeAll_nodup {packets order : List (UInt16 × Bytes)}
    (distinct : (packets.map Prod.fst).Nodup) (perm : order.Perm packets) (decoder : D) :
    ((decodeAll prim decoder order).2.map Prod.fst).Nodup :=
  ((perm.map Prod.fst).nodup_iff.mpr distinct).sublist (decodeAll_sublist prim decoder order)

/-- The packets of a burst are in order. -/
theorem numbered_inOrder (first : UInt16) {burst : List Bytes} (short : burst.length ≤ 65536) :
    (numbered first burst).Pairwise fun earlier later =>
      ahead first earlier.1 < ahead first later.1 := by
  have distances : ((numbered first burst).map fun packet => ahead first packet.1).Pairwise (· < ·) :=
    ahead_numbered first short ▸ List.pairwise_lt_range
  exact List.pairwise_map.mp distances

theorem ahead_of_mem_numbered {first : UInt16} {burst : List Bytes} (short : burst.length ≤ 65536)
    {packet : UInt16 × Bytes} (member : packet ∈ numbered first burst) :
    ahead first packet.1 < burst.length := by
  have inside := List.mem_map_of_mem (f := fun packet : UInt16 × Bytes => ahead first packet.1) member
  rw [ahead_numbered first short] at inside
  exact List.mem_range.mp inside

theorem numbered_nodup (first : UInt16) {burst : List Bytes} (short : burst.length ≤ 65536) :
    ((numbered first burst).map Prod.fst).Nodup := by
  refine List.pairwise_map.mpr ((numbered_inOrder first short).imp fun less same => ?_)
  rw [same] at less
  exact absurd less (Nat.lt_irrefl _)

/-- When every packet is decoded, all numbers are there. -/
theorem decodeAll_numbers {packets : List (UInt16 × Bytes)}
    (decodes : ∀ packet ∈ packets, ∀ decoder, (prim.decode decoder packet.2).2 ≠ none)
    (decoder : D) : (decodeAll prim decoder packets).2.map Prod.fst = packets.map Prod.fst := by
  induction packets generalizing decoder with
  | nil => rfl
  | cons packet rest ih =>
      obtain ⟨seqNum, payload⟩ := packet
      obtain ⟨pcm, decoded⟩ := Option.ne_none_iff_exists'.mp
        (decodes (seqNum, payload) List.mem_cons_self decoder)
      rw [decodeAll]
      dsimp only
      rw [decoded, List.map_append, ih fun packet member =>
        decodes packet (List.mem_cons_of_mem _ member)]
      rfl

theorem decodes_numbered {burst : List Bytes}
    (decodes : ∀ payload ∈ burst, ∀ decoder, (prim.decode decoder payload).2 ≠ none)
    (first : UInt16) : ∀ packet ∈ numbered first burst, ∀ decoder,
      (prim.decode decoder packet.2).2 ≠ none := by
  intro packet member
  obtain ⟨entry, inside, rfl⟩ := List.mem_map.mp member
  exact decodes entry.1 (List.fst_mem_of_mem_zipIdx inside)

/-- When a decoder's samples do not depend on its state, the order of the packets does not
matter. -/
theorem decodeAll_of_stateless
    (stateless : ∀ payload decoder decoder',
      (prim.decode decoder payload).2 = (prim.decode decoder' payload).2)
    (decoder : D) (packets : List (UInt16 × Bytes)) : (decodeAll prim decoder packets).2 =
      packets.filterMap fun packet => (prim.decode decoder packet.2).2.map (packet.1, ·) := by
  suffices from_any : ∀ decoder', (decodeAll prim decoder' packets).2 =
      packets.filterMap fun packet => (prim.decode decoder packet.2).2.map (packet.1, ·) from
    from_any decoder
  induction packets with
  | nil => exact fun _ => rfl
  | cons packet rest ih =>
      intro decoder'
      obtain ⟨seqNum, payload⟩ := packet
      rw [decodeAll, List.filterMap_cons]
      dsimp only
      rw [ih, stateless payload decoder' decoder]
      cases (prim.decode decoder payload).2 with
      | none => rfl
      | some pcm => rfl

/-! ## Two orders of a burst -/

/-- **What lets the order of arrival go unheard.** Of a peer that is played, the decoder
conceals alike after every order of the packets. And the buffer stays below its target
depth, or it is full already, or it takes all packets in whatever their order, each of
those it does not hold yet being decoded to the same samples in every order. -/
def OrderUnheard (peer : RemotePeer D) (first : UInt16) (packets : List (UInt16 × Bytes)) : Prop :=
  peer.state = .connected →
    (∀ order, order.Perm packets → ConcealAlike prim (decodeAll prim peer.decoder order).1
      (decodeAll prim peer.decoder packets).1) ∧
    (peer.jitterBuffer.frames.length + (peer.jitterBuffer.unbuffered packets).length <
        peer.jitterBuffer.targetDepth ∨
      2 * maxDepth ≤ peer.jitterBuffer.frames.length ∨
      peer.jitterBuffer.Takes first packets ∧ ∀ order, order.Perm packets →
        (peer.jitterBuffer.unbuffered (decodeAll prim peer.decoder order).2).Perm
          (peer.jitterBuffer.unbuffered (decodeAll prim peer.decoder packets).2))

/-- The buffer of a peer after packets that arrive in an order. -/
def bufferAfter (peer : RemotePeer D) (order : List (UInt16 × Bytes)) : JitterBuffer Pcm :=
  peer.jitterBuffer.run (JitterBuffer.pushes (decodeAll prim peer.decoder order).2)

section
variable {peer : RemotePeer D} {history : List (JitterOp Pcm)}

theorem noDuplicates_bufferAfter (reached : peer.jitterBuffer = JitterBuffer.new.run history)
    (order : List (UInt16 × Bytes)) : (bufferAfter prim peer order).NoDuplicates := by
  rw [bufferAfter, reached, ← JitterBuffer.run_append]
  exact JitterBuffer.noDuplicates_run _

/-- Two orders are played alike exactly when they leave the same playlist, and decoders
that conceal alike. -/
theorem playedAt_arrive_iff (reached : peer.jitterBuffer = JitterBuffer.new.run history)
    (unplayed : peer.jitterBuffer.nextPlayoutSeq = none) (connected : peer.state = .connected)
    (order order' : List (UInt16 × Bytes)) :
    (∀ ticks, playedAt prim (arrive prim peer order) ticks =
        playedAt prim (arrive prim peer order') ticks) ↔
      (bufferAfter prim peer order).playlist = (bufferAfter prim peer order').playlist ∧
        ConcealAlike prim (decodeAll prim peer.decoder order).1
          (decodeAll prim peer.decoder order').1 := by
  rw [arrive_eq, arrive_eq]
  exact playedAt_eq_iff prim connected connected (noDuplicates_bufferAfter prim reached _)
    (noDuplicates_bufferAfter prim reached _)
    ((JitterBuffer.nextPlayoutSeq_pushes ..).trans unplayed)
    ((JitterBuffer.nextPlayoutSeq_pushes ..).trans unplayed)

theorem playedAt_arrive_of_not_connected (apart : peer.state ≠ .connected)
    (order : List (UInt16 × Bytes)) (ticks : ℕ) :
    playedAt prim (arrive prim peer order) ticks = (none, none) :=
  playedAt_of_not_connected prim (by rwa [arrive_state]) ticks

/-- A burst that meets the condition leaves one playlist, whatever its order. -/
theorem OrderUnheard.playlist_eq {first : UInt16} {packets order : List (UInt16 × Bytes)}
    (unheard : OrderUnheard prim peer first packets) (connected : peer.state = .connected)
    (reached : peer.jitterBuffer = JitterBuffer.new.run history)
    (unplayed : peer.jitterBuffer.nextPlayoutSeq = none)
    (distinct : (packets.map Prod.fst).Nodup)
    (near : ∀ packet ∈ packets, ahead first packet.1 ≤ 32766) (perm : order.Perm packets) :
    (bufferAfter prim peer order).playlist = (bufferAfter prim peer packets).playlist := by
  -- of each order only packets that are decoded and not buffered go in
  have kept : ∀ {order}, order.Perm packets →
      ((decodeAll prim peer.decoder order).2.map Prod.fst).Nodup := fun perm =>
    decodeAll_nodup prim distinct perm _
  have fresh : ∀ {order}, order.Perm packets →
      ((peer.jitterBuffer.unbuffered (decodeAll prim peer.decoder order).2).map Prod.fst).Sublist
        ((peer.jitterBuffer.unbuffered order).map Prod.fst) := by
    intro order _
    rw [JitterBuffer.map_fst_unbuffered, JitterBuffer.map_fst_unbuffered]
    exact (decodeAll_sublist ..).filter _
  rcases (unheard connected).2 with below | full | ⟨takes, samples⟩
  · have short : ∀ {order}, order.Perm packets → (bufferAfter prim peer order).playlist = ∅ := by
      intro order perm
      have length := JitterBuffer.length_pushes unplayed (kept perm)
      have fewer := (fresh perm).length_le
      have same : (peer.jitterBuffer.unbuffered order).length =
          (peer.jitterBuffer.unbuffered packets).length := (perm.filter _).length_eq
      rw [List.length_map, List.length_map] at fewer
      refine JitterBuffer.playlist_of_short ?_
      rw [bufferAfter, length, JitterBuffer.targetDepth_pushes]
      omega
    rw [short perm, short (List.Perm.refl _)]
  · refine JitterBuffer.playlist_congr ?_ ?_
    · exact (JitterBuffer.frames_pushes_of_full full _).trans
        (JitterBuffer.frames_pushes_of_full full _).symm
    · exact (JitterBuffer.targetDepth_pushes ..).trans (JitterBuffer.targetDepth_pushes ..).symm
  · have decoded := fresh (List.Perm.refl packets)
    have takes' : peer.jitterBuffer.Takes first (decodeAll prim peer.decoder packets).2 := by
      refine ⟨?_, takes.oneSided.subset decoded.subset⟩
      have fewer := decoded.length_le
      have := takes.room
      rw [List.length_map, List.length_map] at fewer
      omega
    have same := samples order perm
    obtain ⟨starts, frames⟩ := takes'.pushes_perm unplayed (kept (List.Perm.refl _)) (kept perm)
      (fun number member => by
        obtain ⟨packet, inside, rfl⟩ := List.mem_map.mp ((decodeAll_sublist ..).subset member)
        exact near packet inside)
      (same.symm.map Prod.fst)
    exact (JitterBuffer.playlist_eq_of_perm (noDuplicates_bufferAfter prim reached _)
      (noDuplicates_bufferAfter prim reached _) starts
      ((JitterBuffer.targetDepth_pushes ..).trans (JitterBuffer.targetDepth_pushes ..).symm)
      (frames.mpr same.symm)).symm

/-- Packets that are not buffered in front of packets that are. -/
theorem unbuffered_append {jb : JitterBuffer Pcm} {fresh others : List (UInt16 × Bytes)}
    (absent : ∀ packet ∈ fresh, jb.contains packet.1 = false)
    (present : ∀ packet ∈ others, jb.contains packet.1 = true) :
    jb.unbuffered (fresh ++ others) = fresh := by
  rw [JitterBuffer.unbuffered, List.filter_append,
    List.filter_eq_self.mpr fun packet member => by simp [absent packet member],
    List.filter_eq_nil_iff.mpr fun packet member => by simp [present packet member],
    List.append_nil]

/-- The packets that are not buffered can come first, in any order. -/
theorem exists_order {jb : JitterBuffer Pcm} {packets fresh : List (UInt16 × Bytes)}
    (perm : fresh.Perm (jb.unbuffered packets)) :
    ∃ order, order.Perm packets ∧ jb.unbuffered order = fresh := by
  refine ⟨fresh ++ packets.filter fun packet => !!jb.contains packet.1, ?_,
    unbuffered_append (fun packet member => ?_) fun packet member => ?_⟩
  · exact (perm.append_right _).trans (List.filter_append_perm _ packets)
  · simpa using (List.mem_filter.mp (perm.mem_iff.mp member)).2
  · simpa using (List.mem_filter.mp member).2

end

/-- When every packet is decoded, those that are not buffered are there under their numbers. -/
theorem unbuffered_decodeAll {first : UInt16} {burst : List Bytes}
    (decodes : ∀ payload ∈ burst, ∀ decoder, (prim.decode decoder payload).2 ≠ none)
    (peer : RemotePeer D) {order : List (UInt16 × Bytes)}
    (perm : order.Perm (numbered first burst)) :
    (peer.jitterBuffer.unbuffered (decodeAll prim peer.decoder order).2).map Prod.fst =
      (peer.jitterBuffer.unbuffered order).map Prod.fst := by
  rw [JitterBuffer.map_fst_unbuffered, JitterBuffer.map_fst_unbuffered, decodeAll_numbers prim
    fun packet member => decodes_numbered prim decodes first packet (perm.mem_iff.mp member)]

section
variable {peer : RemotePeer D} {history : List (JitterOp Pcm)} {first : UInt16} {burst : List Bytes}
  (reached : peer.jitterBuffer = JitterBuffer.new.run history)
  (unplayed : peer.jitterBuffer.nextPlayoutSeq = none) (short : burst.length ≤ 2 * maxDepth)
  (decodes : ∀ payload ∈ burst, ∀ decoder, (prim.decode decoder payload).2 ≠ none)
  (same : ∀ order, order.Perm (numbered first burst) →
    (bufferAfter prim peer order).playlist =
      (bufferAfter prim peer (numbered first burst)).playlist)
include reached unplayed short decodes same

/-- **Room**: a burst that overflows a buffer with some room is heard. -/
theorem room_of_playlist_eq (notFull : peer.jitterBuffer.frames.length < 2 * maxDepth) :
    peer.jitterBuffer.frames.length +
      (peer.jitterBuffer.unbuffered (numbered first burst)).length ≤ 2 * maxDepth := by
  by_contra overfull
  have depth : maxDepth = 4 := rfl
  have inOrder := (numbered_inOrder first (show burst.length ≤ 65536 by omega)).filter
    fun packet => !peer.jitterBuffer.contains packet.1
  have inside : ∀ packet ∈ peer.jitterBuffer.unbuffered (numbered first burst),
      ahead first packet.1 < 8 := fun packet member => by
    have := ahead_of_mem_numbered (show burst.length ≤ 65536 by omega) (List.mem_filter.mp member).1
    omega
  change (peer.jitterBuffer.unbuffered (numbered first burst)).Pairwise _ at inOrder
  -- the packet that takes the last room, and the next one
  obtain ⟨before, last, next, after, split, length⟩ : ∃ before last next after,
      peer.jitterBuffer.unbuffered (numbered first burst) = before ++ last :: next :: after ∧
        peer.jitterBuffer.frames.length + before.length + 1 = 2 * maxDepth := by
    generalize peer.jitterBuffer.unbuffered (numbered first burst) = fresh at overfull
    let room := 2 * maxDepth - peer.jitterBuffer.frames.length - 1
    refine ⟨fresh.take room, fresh[room], fresh[room + 1], fresh.drop (room + 2), ?_, ?_⟩
    · rw [← List.drop_eq_getElem_cons, ← List.drop_eq_getElem_cons, List.take_append_drop]
    · rw [List.length_take]
      omega
  rw [split] at inOrder inside
  obtain ⟨order, perm, fresh⟩ := exists_order
    (show (before ++ last :: next :: after).Perm
      (peer.jitterBuffer.unbuffered (numbered first burst)) from split ▸ List.Perm.refl _)
  obtain ⟨order', perm', fresh'⟩ := exists_order
    (show (before ++ next :: last :: after).Perm
      (peer.jitterBuffer.unbuffered (numbered first burst)) from
        split ▸ (List.Perm.swap last next after).append_left before)
  have numbers := unbuffered_decodeAll prim decodes peer perm
  have numbers' := unbuffered_decodeAll prim decodes peer perm'
  rw [fresh, List.map_append, List.map_cons] at numbers
  rw [fresh', List.map_append, List.map_cons] at numbers'
  have kept : ∀ {order}, order.Perm (numbered first burst) →
      ((decodeAll prim peer.decoder order).2.map Prod.fst).Nodup := fun perm =>
    decodeAll_nodup prim (numbered_nodup first (by omega)) perm _
  refine JitterBuffer.playlist_ne_of_overflow (by rw [reached]; exact JitterBuffer.noDuplicates_run _)
    unplayed ?_ (kept perm) (kept perm') numbers numbers' (by rwa [List.length_map]) ?_
    ((same order perm).trans (same order' perm').symm)
  · have := JitterBuffer.targetDepth_run_le history
    rw [reached]
    omega
  · have less : ahead first last.1 < ahead first next.1 :=
      (List.pairwise_cons.mp (List.pairwise_append.mp inOrder).2.1).1 next List.mem_cons_self
    have near := inside next (by simp)
    have := first.toNat_lt
    have := last.1.toNat_lt
    have := next.1.toNat_lt
    simp only [ahead, UInt16.toNat_sub] at less near
    rw [depth]
    omega

/-- **One side**: a burst that there is room for, but which half the circle before the first
frame begins in, is heard. -/
theorem oneSided_of_playlist_eq (deep : peer.jitterBuffer.targetDepth ≤
      peer.jitterBuffer.frames.length +
        (peer.jitterBuffer.unbuffered (numbered first burst)).length)
    (room : peer.jitterBuffer.frames.length +
      (peer.jitterBuffer.unbuffered (numbered first burst)).length ≤ 2 * maxDepth) :
    JitterBuffer.OneSided first peer.jitterBuffer.front
      ((peer.jitterBuffer.unbuffered (numbered first burst)).map Prod.fst) := by
  by_contra both
  have depth : maxDepth = 4 := rfl
  have inOrder := (numbered_inOrder first (show burst.length ≤ 65536 by omega)).filter
    fun packet => !peer.jitterBuffer.contains packet.1
  have near : ∀ number ∈ (peer.jitterBuffer.unbuffered (numbered first burst)).map Prod.fst,
      ahead first number < 2 * maxDepth := fun number member => by
    obtain ⟨packet, inside, rfl⟩ := List.mem_map.mp member
    have := ahead_of_mem_numbered (show burst.length ≤ 65536 by omega) (List.mem_filter.mp inside).1
    omega
  obtain ⟨later, member, apart⟩ := JitterBuffer.frontAfter_of_not_oneSided
    (fun number member => by have := near number member; omega)
    (List.pairwise_map.mpr inOrder) both
  obtain ⟨packet, inside, rfl⟩ := List.mem_map.mp member
  -- in sequence, and with this packet first
  obtain ⟨order, perm, fresh⟩ := exists_order (List.perm_cons_erase inside).symm
  obtain ⟨head, member, head', member', different, first', second⟩ := apart
    (((peer.jitterBuffer.unbuffered (numbered first burst)).erase packet).map Prod.fst)
    ((List.perm_cons_erase inside).symm.map Prod.fst)
  have after : ∀ {order}, order.Perm (numbered first burst) →
      (bufferAfter prim peer order).front = ((peer.jitterBuffer.unbuffered order).map
          Prod.fst).foldl JitterBuffer.frontAfter peer.jitterBuffer.front ∧
        ((bufferAfter prim peer order).frames.map JitterFrame.seqNum).Perm
          ((peer.jitterBuffer.unbuffered order).map Prod.fst ++
            peer.jitterBuffer.frames.map JitterFrame.seqNum) := by
    intro order perm
    have numbers := unbuffered_decodeAll prim decodes peer perm
    have length : (peer.jitterBuffer.unbuffered order).length =
        (peer.jitterBuffer.unbuffered (numbered first burst)).length := (perm.filter _).length_eq
    have length' := congrArg List.length numbers
    rw [List.length_map, List.length_map] at length'
    have kept := decodeAll_nodup prim (numbered_nodup first (by omega)) perm peer.decoder
    have frames := JitterBuffer.numbers_pushes unplayed kept
    rw [numbers, List.take_of_length_le (by rw [List.length_map]; omega)] at frames
    exact ⟨numbers ▸ JitterBuffer.front_pushes unplayed kept (by omega), frames⟩
  obtain ⟨starts, frames⟩ := after (List.Perm.refl _)
  obtain ⟨starts', frames'⟩ := after perm
  have numbers := frames.trans
    ((((perm.filter _).symm.map Prod.fst).append_right _).trans frames'.symm)
  have length := frames.length_eq
  have length' := numbers.length_eq
  rw [List.length_map, List.length_append, List.length_map, List.length_map] at length
  rw [List.length_map, List.length_map] at length'
  have targets : ∀ order, (bufferAfter prim peer order).targetDepth =
      peer.jitterBuffer.targetDepth := fun _ => JitterBuffer.targetDepth_pushes ..
  refine different (JitterBuffer.front_eq_of_playlist_eq (noDuplicates_bufferAfter prim reached _)
    (noDuplicates_bufferAfter prim reached _) (starts.trans first') ?_ ?_ ?_ numbers ?_
    (near head member) (near head' member') (same order perm).symm)
  · rw [starts', fresh]
    exact second
  · rw [targets]
    omega
  · rw [targets]
    omega
  · omega

/-- **The samples**: of a burst that goes in, every packet that is not buffered has to be
decoded to the same samples. -/
theorem samples_of_playlist_eq (deep : peer.jitterBuffer.targetDepth ≤
      peer.jitterBuffer.frames.length +
        (peer.jitterBuffer.unbuffered (numbered first burst)).length)
    (takes : peer.jitterBuffer.Takes first (numbered first burst))
    {order : List (UInt16 × Bytes)} (perm : order.Perm (numbered first burst)) :
    (peer.jitterBuffer.unbuffered (decodeAll prim peer.decoder order).2).Perm
      (peer.jitterBuffer.unbuffered (decodeAll prim peer.decoder (numbered first burst)).2) := by
  have depth : maxDepth = 4 := rfl
  have kept : ∀ {order}, order.Perm (numbered first burst) →
      ((decodeAll prim peer.decoder order).2.map Prod.fst).Nodup := fun perm =>
    decodeAll_nodup prim (numbered_nodup first (by omega)) perm _
  have filtered : ∀ {order}, order.Perm (numbered first burst) →
      ((peer.jitterBuffer.unbuffered (decodeAll prim peer.decoder order).2).map Prod.fst).Perm
        ((peer.jitterBuffer.unbuffered (numbered first burst)).map Prod.fst) := fun perm =>
    (unbuffered_decodeAll prim decodes peer perm).symm ▸ (perm.filter _).map Prod.fst
  have size : ∀ {order}, order.Perm (numbered first burst) →
      (peer.jitterBuffer.unbuffered (decodeAll prim peer.decoder order).2).length =
        (peer.jitterBuffer.unbuffered (numbered first burst)).length := fun perm => by
    simpa using (filtered perm).length_eq
  have reaches : ∀ {order}, order.Perm (numbered first burst) →
      (bufferAfter prim peer order).targetDepth ≤ (bufferAfter prim peer order).frames.length := by
    intro order perm
    have length := JitterBuffer.length_pushes unplayed (kept perm)
    have := takes.room
    have := size perm
    rw [bufferAfter, length, JitterBuffer.targetDepth_pushes]
    omega
  have takes' : peer.jitterBuffer.Takes first (decodeAll prim peer.decoder order).2 :=
    ⟨size perm ▸ takes.room, takes.oneSided.subset (filtered perm).subset⟩
  obtain ⟨starts, frames⟩ := takes'.pushes_perm unplayed (kept perm) (kept (List.Perm.refl _))
    (fun number member => by
      obtain ⟨packet, inside, rfl⟩ := List.mem_map.mp ((decodeAll_sublist ..).subset member)
      have := ahead_of_mem_numbered (by omega) (perm.mem_iff.mp inside)
      omega)
    ((filtered perm).trans (filtered (List.Perm.refl _)).symm)
  exact frames.mp ((JitterBuffer.playlist_eq_iff_perm (noDuplicates_bufferAfter prim reached _)
    (noDuplicates_bufferAfter prim reached _) starts (reaches perm)
    (reaches (List.Perm.refl _))).mp (same order perm))

end

/-- **The condition is enough**, also for a decoder that refuses packets. -/
theorem OrderUnheard.playedAt_eq {history : List (JitterOp Pcm)} {peer : RemotePeer D}
    {first : UInt16} {burst : List Bytes}
    (unheard : OrderUnheard prim peer first (numbered first burst))
    (reached : peer.jitterBuffer = JitterBuffer.new.run history)
    (unplayed : peer.jitterBuffer.nextPlayoutSeq = none) (short : burst.length ≤ 2 * maxDepth)
    {order order' : List (UInt16 × Bytes)} (perm : order.Perm (numbered first burst))
    (perm' : order'.Perm (numbered first burst)) (ticks : ℕ) :
    playedAt prim (arrive prim peer order) ticks =
      playedAt prim (arrive prim peer order') ticks := by
  have depth : maxDepth = 4 := rfl
  by_cases connected : peer.state = .connected
  · have sequence : ∀ order, order.Perm (numbered first burst) →
        ∀ ticks, playedAt prim (arrive prim peer order) ticks =
          playedAt prim (arrive prim peer (numbered first burst)) ticks := fun order perm =>
      (playedAt_arrive_iff prim reached unplayed connected order _).mpr
        ⟨unheard.playlist_eq prim connected reached unplayed (numbered_nodup first (by omega))
          (fun packet member => by
            have := ahead_of_mem_numbered (by omega) member
            omega) perm, (unheard connected).1 order perm⟩
    exact (sequence order perm ticks).trans (sequence order' perm' ticks).symm
  · rw [playedAt_arrive_of_not_connected prim connected,
      playedAt_arrive_of_not_connected prim connected]

/-- **When the order of arrival goes unheard.** For any decoder that gives samples for every
packet, a peer of which no frame was played yet and a burst of consecutive packets: all
orders of arrival lead to the same frames popped and mixed in all following ticks if and
only if the condition holds. -/
theorem arrival_order_iff (history : List (JitterOp Pcm)) (peer : RemotePeer D)
    (reached : peer.jitterBuffer = JitterBuffer.new.run history)
    (unplayed : peer.jitterBuffer.nextPlayoutSeq = none) (first : UInt16) (burst : List Bytes)
    (short : burst.length ≤ 2 * maxDepth)
    (decodes : ∀ payload ∈ burst, ∀ decoder, (prim.decode decoder payload).2 ≠ none) :
    (∀ order order', order.Perm (numbered first burst) → order'.Perm (numbered first burst) →
      ∀ ticks, playedAt prim (arrive prim peer order) ticks =
        playedAt prim (arrive prim peer order') ticks) ↔
      OrderUnheard prim peer first (numbered first burst) := by
  constructor
  · intro alike connected
    have both := fun order perm => (playedAt_arrive_iff prim reached unplayed connected order _).mp
      (alike order _ perm (List.Perm.refl (numbered first burst)))
    have same := fun order perm => (both order perm).1
    refine ⟨fun order perm => (both order perm).2, ?_⟩
    by_cases below : peer.jitterBuffer.frames.length +
        (peer.jitterBuffer.unbuffered (numbered first burst)).length <
          peer.jitterBuffer.targetDepth
    · exact Or.inl below
    by_cases full : 2 * maxDepth ≤ peer.jitterBuffer.frames.length
    · exact Or.inr (Or.inl full)
    have deep := Nat.not_lt.mp below
    have room := room_of_playlist_eq prim reached unplayed short decodes same (Nat.not_le.mp full)
    have takes : peer.jitterBuffer.Takes first (numbered first burst) :=
      ⟨room, oneSided_of_playlist_eq prim reached unplayed short decodes same deep room⟩
    exact Or.inr (Or.inr ⟨takes, fun order perm =>
      samples_of_playlist_eq prim reached unplayed short decodes same deep takes perm⟩)
  · exact fun unheard order order' perm perm' ticks =>
      unheard.playedAt_eq prim reached unplayed short perm perm' ticks

end Node

namespace Sample

/-- A decoder that numbers the packets it decodes. -/
def counting : Primitives ℕ where
  aead := Aead.transparent
  publicKey secret := secret
  diffieHellman a _ := a
  hkdf _ _ _ := Vector.replicate 32 0
  decode count _ := (count + 1, some [Int16.ofNat count])
  decodePlc count := (count, some [])

/-- A decoder that counts the packets it decodes, and gives back their bytes. -/
def tallying : Primitives ℕ :=
  { counting with
    decode count payload := (count + 1, some (payload.map fun byte => Int16.ofNat byte.toNat)) }

/-- A connected peer of which nothing was heard yet. -/
def quiet {D : Type} (decoder : D) : RemotePeer D :=
  (RemotePeer.new 1 (addr 1) decoder 0).connect 0

/-- A connected peer with frames that wait to be played. -/
def waiting {D : Type} (decoder : D) (history : List (JitterOp Pcm)) : RemotePeer D :=
  { quiet decoder with jitterBuffer := JitterBuffer.new.run history }

end Sample

namespace Node

/-- Five packets across the wrap, one of which is there already, overtake each other and a
frame that waits: they are played in sequence, with a decoder that has a state. -/
theorem overtaking_unheard :
    (List.range 6).map (fun ticks => playedAt Sample.tallying
        (arrive Sample.tallying (Sample.waiting 0 [.push 65533 [3], .push 1 [7]])
          [(1, [0]), (65534, [4]), (2, [8]), (0, [6]), (65535, [5])]) ticks) =
      [3, 4, 5, 6, 7, 8].map fun sample => (some [sample], some [sample]) := by
  have unheard : OrderUnheard Sample.tallying
      (Sample.waiting 0 [.push 65533 [3], .push 1 [7]]) 65534
      (numbered 65534 [[4], [5], [6], [0], [8]]) := by
    refine fun _ => ⟨fun _ _ _ => rfl, Or.inr (Or.inr
      ⟨⟨by decide +kernel, by decide +kernel⟩, fun order perm => ?_⟩)⟩
    rw [decodeAll_of_stateless _ (fun _ _ _ => rfl), decodeAll_of_stateless _ (fun _ _ _ => rfl)]
    exact (perm.filterMap _).filter _
  have alike := (arrival_order_iff Sample.tallying [.push 65533 [3], .push 1 [7]]
    (Sample.waiting 0 [.push 65533 [3], .push 1 [7]]) rfl (by decide +kernel) 65534
    [[4], [5], [6], [0], [8]] (by decide) fun _ _ _ decoded => by cases decoded).mpr unheard
    [(1, [0]), (65534, [4]), (2, [8]), (0, [6]), (65535, [5])]
    [(65534, [4]), (65535, [5]), (0, [6]), (1, [0]), (2, [8])] (by decide +kernel) (by decide +kernel)
  exact (List.map_congr_left fun ticks _ => alike ticks).trans (by decide +kernel)

/-- With seven frames waiting there is room for one of two packets: the order is heard also
without a decoder state. -/
example :
    let peer := Sample.waiting () ((List.range 7).map fun seqNum => .push (.ofNat seqNum) [])
    playedAt Primitives.transparent (arrive Primitives.transparent peer [(7, [7]), (8, [8])]) 7 ≠
      playedAt Primitives.transparent (arrive Primitives.transparent peer [(8, [8]), (7, [7])]) 7 := by
  decide +kernel

/-- **The order of arrival is heard** with a decoder that counts: packet 0 sounds as the
second one when packet 1 overtook it. -/
theorem arrival_order_heard :
    ¬ ∀ (history : List (JitterOp Pcm)) (peer : RemotePeer ℕ) (first : UInt16)
      (burst : List Bytes), peer.jitterBuffer = JitterBuffer.new.run history →
      peer.jitterBuffer.nextPlayoutSeq = none → burst.length ≤ 2 * maxDepth →
      ∀ order order', order.Perm (numbered first burst) → order'.Perm (numbered first burst) →
        ∀ ticks, playedAt Sample.counting (arrive Sample.counting peer order) ticks =
          playedAt Sample.counting (arrive Sample.counting peer order') ticks := by
  intro claim
  have same := claim [] (Sample.quiet 0) 0 [[], []] rfl rfl (by decide) [(1, []), (0, [])]
    [(0, []), (1, [])] (List.Perm.swap ..) (List.Perm.refl _) 0
  exact absurd same (by decide +kernel)

end Node

end VoiceChat
