import VoiceChat.Session.RoundTrips
import VoiceChat.Session.Run

/-!
# What the user interface shows

Four times a second the loop copies its peers to where the user interface finds them. So
at the end of every iteration, what is shown are the peers as they were at the end of an
iteration that is less than a quarter of a second back, every one of them, with the
statistics of all round trips that were measured until then (`shown_recently`).
-/

set_option autoImplicit false

namespace VoiceChat

namespace RunState

variable {σ E D : Type} (prim : Primitives D) (audio : AudioLibrary σ E)

/-- The peers of a node, as a turn shows them. -/
def shown (turn : Turn D) (node : Node D) : List PeerDisplayInfo :=
  (node.peerMgr.peers.values turn.env.order).map RemotePeer.displayInfo

/-- **One iteration** shows its peers, when a quarter of a second has passed since they
were shown. -/
theorem iterate_shows (s : RunState σ E D) {turn : Turn D} (free : turn.peerInfoFree = true) :
    (10 ^ 9 / 4 ≤ turn.env.now - s.lastUiUpdate ∧
        (s.iterate prim audio turn).1.lastUiUpdate = turn.env.now ∧
        (s.iterate prim audio turn).1.peerInfo = shown turn (s.iterate prim audio turn).1.node) ∨
      turn.env.now - s.lastUiUpdate < 10 ^ 9 / 4 ∧
        (s.iterate prim audio turn).1.lastUiUpdate = s.lastUiUpdate ∧
        (s.iterate prim audio turn).1.peerInfo = s.peerInfo := by
  have shows : ((s.iterate prim audio turn).1.peerInfo,
      (s.iterate prim audio turn).1.lastUiUpdate) =
      showPeers s.peerInfo s.lastUiUpdate turn (s.iterate prim audio turn).1.node := rfl
  rw [showPeers, free, if_pos rfl] at shows
  split_ifs at shows with due
  · exact Or.inl ⟨due, (Prod.mk.inj shows).2, (Prod.mk.inj shows).1⟩
  · exact Or.inr ⟨Nat.lt_of_not_le due, (Prod.mk.inj shows).2, (Prod.mk.inj shows).1⟩

/-- **A run** shows the peers of one of its iterations, or nothing yet. -/
theorem run_shows (s : RunState σ E D) (turns : List (Turn D))
    (free : ∀ turn ∈ turns, turn.peerInfoFree = true) :
    ((machine prim audio).run s turns).lastUiUpdate = s.lastUiUpdate ∨
      ∃ before turn after, turns = before ++ turn :: after ∧
        ((machine prim audio).run s turns).lastUiUpdate = turn.env.now ∧
        ((machine prim audio).run s turns).peerInfo =
          shown turn ((machine prim audio).run s (before ++ [turn])).node := by
  induction turns using List.reverseRecOn with
  | nil => exact Or.inl rfl
  | append_singleton turns turn ih =>
    have last : ((machine prim audio).run s (turns ++ [turn])) =
        (((machine prim audio).run s turns).iterate prim audio turn).1 :=
      (machine prim audio).run_append s turns [turn]
    rcases ((machine prim audio).run s turns).iterate_shows prim audio
      (free turn (List.mem_append_right turns List.mem_cons_self)) with
      ⟨_, time, info⟩ | ⟨_, time, info⟩
    · refine Or.inr ⟨turns, turn, [], rfl, ?_, ?_⟩
      · rw [last, time]
      · rw [last, info]
    · rw [last, time, info]
      rcases ih fun turn' member => free turn' (List.mem_append_left _ member) with
        same | ⟨before, turn', after, rfl, time', info'⟩
      · exact Or.inl same
      · refine Or.inr ⟨before, turn', after ++ [turn], ?_, time', info'⟩
        rw [List.append_assoc, List.cons_append]

/-- At the end of an iteration, what is shown was less than a quarter of a second ago. -/
theorem lastUiUpdate_recent (s : RunState σ E D) {turn : Turn D} (free : turn.peerInfoFree = true) :
    turn.env.now < (s.iterate prim audio turn).1.lastUiUpdate + 10 ^ 9 / 4 := by
  rcases s.iterate_shows prim audio free with
    ⟨_, time, _⟩ | ⟨recent, time, _⟩
  · rw [time]
    exact Nat.lt_add_of_pos_right (by decide)
  · rw [time]
    exact lt_add_of_tsub_lt_left recent

/-- **What is shown is recent, and complete.** From a quarter of a second on after the start
of a session, the peers that are shown at the end of an iteration are those that the
session had at the end of some iteration less than a quarter of a second before: each of
them, and with each the statistics of all the round trips measured of it until then. -/
theorem shown_recently {node : Node D} (starts : node.Starts) (noiseSuppression : Bool)
    (vadConfig : VadConfig) (mode : InputMode) (encoder : E) (start : Instant)
    (turns : List (Turn D)) (turn : Turn D)
    (free : ∀ turn' ∈ turns ++ [turn], turn'.peerInfoFree = true)
    (late : start + 10 ^ 9 / 4 ≤ turn.env.now) :
    let s := RunState.start audio node noiseSuppression vadConfig mode encoder start
    let info := ((machine prim audio).run s (turns ++ [turn])).peerInfo
    ∃ before turn' after, turns ++ [turn] = before ++ turn' :: after ∧
      turn.env.now < turn'.env.now + 10 ^ 9 / 4 ∧
      (∀ id peer, ((nodeMachine prim).run node (s.events audio (before ++ [turn']))).getPeer id =
        some peer → peer.displayInfo ∈ info) ∧
      ∀ entry ∈ info, ∃ peer,
        ((nodeMachine prim).run node (s.events audio (before ++ [turn']))).getPeer entry.id =
          some peer ∧ entry = peer.displayInfo ∧
        LatencyTracker.Sums ((Node.allMeasured prim entry.id node
          (s.events audio (before ++ [turn']))).map Prod.snd) entry.latency := by
  intro s info
  have last : (machine prim audio).run s (turns ++ [turn]) =
      (((machine prim audio).run s turns).iterate prim audio turn).1 :=
    (machine prim audio).run_append s turns [turn]
  have recent := lastUiUpdate_recent prim audio
    ((machine prim audio).run s turns)
    (free turn (List.mem_append_right turns List.mem_cons_self))
  rw [← last] at recent
  rcases run_shows prim audio s (turns ++ [turn]) free with
    never | ⟨before, turn', after, split, time, shows⟩
  · rw [never] at recent
    exact absurd recent (Nat.not_lt.mpr late)
  · rw [time] at recent
    have shows' : info = shown turn'
        ((nodeMachine prim).run node (s.events audio (before ++ [turn']))) :=
      shows.trans (congrArg (shown turn') (node_eq prim audio s (before ++ [turn'])).2.1)
    rw [shows', shown]
    refine ⟨before, turn', after, split, recent, fun id peer known => ?_, fun entry member => ?_⟩
    · exact List.mem_map_of_mem (HashMap.mem_values.mpr ⟨id, known⟩)
    · obtain ⟨peer, inside, rfl⟩ := List.mem_map.mp member
      obtain ⟨id, known⟩ := HashMap.mem_values.mp inside
      have reached : node.Reached prim := ⟨node, [], starts, rfl⟩
      have keyed : ((nodeMachine prim).run node (s.events audio (before ++ [turn']))).Keyed :=
        Machine.invariant (M := nodeMachine prim) Node.Keyed
          (fun _ input keyed _ => keyed.step input.1 input.2) starts.keyed
          (Machine.along_true (nodeMachine prim) node _)
      obtain rfl : peer.id = id := keyed id peer known
      refine ⟨peer, known, rfl, ?_⟩
      exact Node.statistics_of_round_trips reached (starts.unknown peer.id) _ known

/-- A host that lets a peer in shows it a quarter of a second after its start, as it was less
than a quarter of a second before. -/
theorem shown_recently_of_join :
    let s := RunState.start AudioLibrary.transparent Sample.host true VadConfig.default .alwaysOn
      () 0
    let info := ((machine Primitives.transparent AudioLibrary.transparent).run s
      ([Sample.joinTurn 125000000] ++ [Sample.turn 250000000])).peerInfo
    info.map PeerDisplayInfo.id = [1] ∧
    ∃ before turn' after, [Sample.joinTurn 125000000] ++ [Sample.turn 250000000] =
        before ++ turn' :: after ∧
      (Sample.turn 250000000).env.now < turn'.env.now + 10 ^ 9 / 4 ∧
      ∀ entry ∈ info, ∃ peer, ((nodeMachine Primitives.transparent).run Sample.host
          (s.events AudioLibrary.transparent (before ++ [turn']))).getPeer entry.id = some peer ∧
        entry = peer.displayInfo := by
  intro s info
  obtain ⟨before, turn', after, split, recent, _, shown⟩ :=
    shown_recently Primitives.transparent AudioLibrary.transparent
      (.host Sample.psk Sample.session ⟨Vector.replicate 32 3⟩) true VadConfig.default .alwaysOn ()
      0 [Sample.joinTurn 125000000] (Sample.turn 250000000) (by decide) (by decide)
  refine ⟨by decide +kernel, before, turn', after, split, recent, fun entry member => ?_⟩
  obtain ⟨peer, known, same, _⟩ := shown entry member
  exact ⟨peer, known, same⟩

end RunState

end VoiceChat
