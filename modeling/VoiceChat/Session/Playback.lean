import VoiceChat.Session.Coherence
import VoiceChat.Session.Run

/-!
# What the order of the peers does to what is heard

A playout tick walks through the hash map of the peers and adds their frames up as it
meets them. The sums are rounded, so the order of the map goes into the samples. Nobody
hears it: however the map is walked through, no sample of a running session differs by
more than a sixteenth of a 16-bit step.
-/

set_option autoImplicit false

namespace VoiceChat

namespace RunState

variable {σ E D : Type} (prim : Primitives D)

/-- What a peer contributes is at most a little above full scale. -/
theorem abs_le_of_mem_i16ToF32 (fl : Rounding f32) {pcm : Pcm} {sample : Sample}
    (member : sample ∈ i16ToF32 fl pcm) : |sample| ≤ 2 := by
  obtain ⟨s, -, rfl⟩ := List.mem_map.mp member
  have two : f32.Representable (2 : ℤ) := FloatFormat.representable_intCast (by decide) (by decide)
  refine fl.abs_round_le (by exact_mod_cast two) ?_
  rw [abs_div, abs_of_pos i16Max_pos, div_le_iff₀ i16Max_pos]
  have low := s.le_toInt
  have high := s.toInt_lt
  have size : |s.toInt| ≤ 2 * i16Max := abs_le.mpr ⟨by unfold i16Max; omega, by unfold i16Max; omega⟩
  exact_mod_cast size

/-- Two walks through the peers meet the same frames. -/
theorem playedFrames_perm (node : Node D) (env env' : Env D) :
    (Node.playedFrames prim node env).Perm (Node.playedFrames prim node env') := by
  have same : (node.peerMgr.peers.values env.order).Perm
      (node.peerMgr.peers.values env'.order) :=
    ((env.order.2 _).trans (env'.order.2 _).symm).filterMap _
  exact same.filterMap _

variable {prim} in
/-- **The order of the hash map is not heard**: in every state that a session reaches, two
walks through the peers mix frames that differ by at most a sixteenth of a 16-bit step. -/
theorem hash_order_unheard (audio : AudioLibrary σ E) {node : Node D}
    (reached : node.Reached prim) (env env' : Env D) :
    Option.Rel (List.Forall₂ fun s s' => |s - s'| ≤ 1 / 2 ^ 19) (mixPlayed prim audio node env)
      (mixPlayed prim audio node env') := by
  have same := (playedFrames_perm prim node env env').map (i16ToF32 audio.fl)
  have few : ((Node.playedFrames prim node env).map (i16ToF32 audio.fl)).length ≤ 4 := by
    rw [List.length_map]
    refine (List.length_filterMap_le ..).trans ?_
    exact (node.peerMgr.peers.length_values_le env.order).trans reached.coherent.room
  have bounded : ∀ buf ∈ (Node.playedFrames prim node env).map (i16ToF32 audio.fl),
      ∀ s ∈ buf, |s| ≤ 2 := by
    intro buf member s inside
    obtain ⟨pcm, -, rfl⟩ := List.mem_map.mp member
    exact abs_le_of_mem_i16ToF32 audio.fl inside
  unfold mixPlayed
  dsimp only
  rw [← same.isEmpty_eq]
  split_ifs
  · exact .none
  · exact .some (mixPeers_perm audio.fl same few bounded _)

end RunState

namespace Sample

/-- A frame of the peer with an id, sealed with the session context. -/
def audioOf (id : UInt8) (opus : Bytes) : Bytes :=
  wires (Node.sealCounted Primitives.transparent
    { host with peerMgr := host.peerMgr.setIdentity id session } pktAudio opus 0 (addr 0)).2

/-- A host lets two peers in and receives a frame of each. -/
def twoSpeakers : List (Env Unit × Node.Event) :=
  joins [1, 2] ++ [(env 0 1, .recv (audioOf 1 [1, 2]) (addr 1)),
    (env 0 1, .recv (audioOf 2 [3, 4]) (addr 2))]

end Sample

namespace RunState

/-- With two peers of which a frame is played. -/
theorem hash_order_unheard_of_two :
    (Node.playedFrames Primitives.transparent
        ((nodeMachine Primitives.transparent).run Sample.host Sample.twoSpeakers)
        (Sample.env 0 2)).length = 2 ∧
    Option.Rel (List.Forall₂ fun s s' => |s - s'| ≤ 1 / 2 ^ 19)
      (mixPlayed Primitives.transparent AudioLibrary.transparent
        ((nodeMachine Primitives.transparent).run Sample.host Sample.twoSpeakers) (Sample.env 0 2))
      (mixPlayed Primitives.transparent AudioLibrary.transparent
        ((nodeMachine Primitives.transparent).run Sample.host Sample.twoSpeakers)
        { Sample.env 0 2 with order := ⟨List.reverse, fun _ => List.reverse_perm _⟩ }) :=
  ⟨by decide +kernel, hash_order_unheard AudioLibrary.transparent
    ⟨Sample.host, Sample.twoSpeakers, .host .., rfl⟩ _ _⟩

end RunState

end VoiceChat
