import VoiceChat.Library.RestartTimer
import VoiceChat.Session

/-!
# The main loop

A running session goes round in a loop. An iteration takes in at most one datagram
and the frames that were captured, and then looks at its timers: for the playout, the
keepalive, the pings and the adaptation. What an iteration does is a list of events of
the node, which depends on the clock alone; so the loop is a machine of its own, and
the node is run on what it puts out (`nodeMachine`).

Every timer restarts at the time of the iteration that finds it due. The playout
therefore does not keep the frame rate for long unless the iterations come as the
frames do: what the ticks come late adds up, and the rate is kept exactly while the
sum is at most one frame (`frame_rate_kept_iff`).
-/

set_option autoImplicit false

namespace VoiceChat

/-- Frame duration in microseconds. -/
def frameDurationUs : Nat := 2500
/-- Frame duration in nanoseconds, as the loop compares it. -/
def frameDuration : Nat := frameDurationUs * 1000
def pingIntervalSecs : Nat := 2

/-- When the loop did last what it does from time to time. -/
structure Timers where
  lastPlayout : Instant
  lastKeepalive : Instant
  lastPing : Instant
  lastAdapt : Instant
  deriving DecidableEq

/-- The timers of a loop that starts. -/
def Timers.start (now : Instant) : Timers := ⟨now, now, now, now⟩

/-- What an iteration of the loop meets. The clock stands still within it. -/
structure Iteration (D : Type) where
  env : Env D
  /-- The datagram that was waiting, if any. -/
  received : Option (Bytes × SocketAddr)
  /-- The frames that were captured, passed the gate and were encoded. -/
  frames : List Bytes

namespace Iteration

variable {D : Type}

/-- The events that an iteration meets before it looks at its timers. -/
def arrived (iteration : Iteration D) : List Node.Event :=
  (iteration.received.map fun datagram => .recv datagram.1 datagram.2).toList ++
    iteration.frames.map .frame

end Iteration

namespace Timers

/-- The event, if the interval has passed since it was due last, and the timer after it. -/
def poll (interval : Nat) (last now : Instant) (event : Node.Event) :
    List Node.Event × Instant :=
  if now - last ≥ interval then ([event], now) else ([], last)

/-- The events that are due at a time, in the order of the loop, and the timers after
them. -/
def due (timers : Timers) (now : Instant) : List Node.Event × Timers :=
  let (playout, lastPlayout) := poll frameDuration timers.lastPlayout now .playout
  let (keepalive, lastKeepalive) := poll (10 ^ 9) timers.lastKeepalive now .keepalive
  let (ping, lastPing) := poll (pingIntervalSecs * 10 ^ 9) timers.lastPing now .ping
  let (adapt, lastAdapt) :=
    poll (10 ^ 9 / 2) timers.lastAdapt now
      (.adapt (((now - timers.lastAdapt : Nat) : ℚ) / 10 ^ 9))
  (playout ++ keepalive ++ ping ++ adapt, ⟨lastPlayout, lastKeepalive, lastPing, lastAdapt⟩)

end Timers

theorem Timers.due_lastPlayout (timers : Timers) (now : Instant) :
    (timers.due now).2.lastPlayout =
      if frameDuration ≤ now - timers.lastPlayout then now else timers.lastPlayout := by
  change (Timers.poll frameDuration timers.lastPlayout now .playout).2 = _
  exact apply_ite Prod.snd ..

/-- The main loop: the events of its iterations, each with the environment it meets. -/
def mainLoop (D : Type) : Machine Timers (Iteration D) (Env D × Node.Event) where
  step timers iteration :=
    let (events, timers') := timers.due iteration.env.now
    (timers', (iteration.arrived ++ events).map fun event => (iteration.env, event))

variable {D : Type}

/-- How many playout ticks the loop performs up to a time. -/
def playoutTicks (timers : Timers) (iterations : List (Iteration D)) (time : ℚ) : ℕ :=
  ((mainLoop D).outputs timers iterations).countP fun output =>
    output.2 = .playout ∧ (output.1.now : ℚ) ≤ time

/-! ## The playout timer -/

theorem Timers.eq_of_mem_poll {interval : Nat} {last now : Instant} {event event' : Node.Event}
    (member : event' ∈ (poll interval last now event).1) : event' = event := by
  unfold poll at member
  split_ifs at member
  · exact List.mem_singleton.mp member
  · cases member

/-- Apart from the playout, no timer calls for a playout. -/
theorem Timers.exists_due_eq (timers : Timers) (now : Instant) :
    ∃ others, (timers.due now).1 =
        (poll frameDuration timers.lastPlayout now .playout).1 ++ others ∧
      Node.Event.playout ∉ others := by
  refine ⟨_, (List.append_assoc ..).trans (List.append_assoc ..), fun member => ?_⟩
  rcases List.mem_append.mp member with keepalive | later
  · cases eq_of_mem_poll keepalive
  · rcases List.mem_append.mp later with ping | adapt
    · cases eq_of_mem_poll ping
    · cases eq_of_mem_poll adapt

theorem Iteration.playout_not_mem_arrived (iteration : Iteration D) :
    Node.Event.playout ∉ iteration.arrived := by
  intro member
  rcases List.mem_append.mp member with received | frame
  · obtain ⟨datagram, _, same⟩ := Option.map_eq_some_iff.mp (Option.mem_toList.mp received)
    cases same
  · obtain ⟨opus, _, same⟩ := List.mem_map.mp frame
    cases same

/-- Events that are no playout add no ticks. -/
theorem countP_eq_zero_of_no_playout (env : Env D) {events : List Node.Event}
    (none : Node.Event.playout ∉ events) (time : ℚ) :
    (events.map fun event => (env, event)).countP (fun output =>
      output.2 = Node.Event.playout ∧ (output.1.now : ℚ) ≤ time) = 0 := by
  rw [List.countP_map, List.countP_eq_zero]
  intro event member tick
  have played : event = .playout ∧ (env.now : ℚ) ≤ time := of_decide_eq_true tick
  exact none (played.1 ▸ member)

/-- **One iteration** performs a tick exactly when the playout timer fires. -/
theorem playoutTicks_cons (timers : Timers) (iteration : Iteration D)
    (rest : List (Iteration D)) (time : ℚ) :
    playoutTicks timers (iteration :: rest) time =
      playoutTicks (timers.due iteration.env.now).2 rest time +
        if frameDuration ≤ iteration.env.now - timers.lastPlayout ∧
          (iteration.env.now : ℚ) ≤ time then 1 else 0 := by
  obtain ⟨others, events, none⟩ := timers.exists_due_eq iteration.env.now
  have step : (mainLoop D).step timers iteration = ((timers.due iteration.env.now).2,
      (iteration.arrived ++ (timers.due iteration.env.now).1).map fun event =>
        (iteration.env, event)) := rfl
  unfold playoutTicks
  rw [Machine.outputs_cons, step, List.countP_append, Nat.add_comm, events, List.map_append,
    List.map_append, List.countP_append, List.countP_append,
    countP_eq_zero_of_no_playout _ iteration.playout_not_mem_arrived,
    countP_eq_zero_of_no_playout _ none, Nat.zero_add, Nat.add_zero]
  congr 1
  by_cases due : frameDuration ≤ iteration.env.now - timers.lastPlayout
  · rw [Timers.poll, if_pos due, List.map_singleton, List.countP_singleton]
    simp only [due, true_and, decide_eq_true_eq]
  · rw [Timers.poll, if_neg due, if_neg fun tick => due tick.1]
    rfl

/-- The ticks of the loop are the firings of its playout timer. -/
theorem playoutTicks_eq_firedBy (timers : Timers) (iterations : List (Iteration D)) (time : ℚ) :
    playoutTicks timers iterations time =
      RestartTimer.firedBy frameDuration timers.lastPlayout
        (iterations.map fun iteration => iteration.env.now) time := by
  induction iterations generalizing timers with
  | nil => rfl
  | cons iteration rest ih =>
    rw [playoutTicks_cons, ih, List.map_cons]
    by_cases due : frameDuration ≤ iteration.env.now - timers.lastPlayout
    · rw [RestartTimer.firedBy_of_due due, Timers.due_lastPlayout, if_pos due]
      simp only [due, true_and]
    · rw [RestartTimer.firedBy_of_not_due (Nat.lt_of_not_le due), Timers.due_lastPlayout,
        if_neg due, if_neg fun tick => due tick.1, Nat.add_zero]

/-! ## Runs -/

/-- **The frame rate is kept** at every time the loop reaches, to within two frames,
exactly when the iterations come late for their ticks by at most one frame altogether. -/
theorem frame_rate_kept_iff (iterations : List (Iteration D)) :
    (∀ time : ℚ, (∃ iteration ∈ iterations, time ≤ iteration.env.now) →
        time / frameDuration - 2 ≤ playoutTicks (Timers.start 0) iterations time) ↔
      RestartTimer.lateness frameDuration 0
        (iterations.map fun iteration => iteration.env.now) ≤ frameDuration := by
  have positive : 0 < frameDuration := Nat.succ_pos _
  have positive' : (0 : ℚ) < frameDuration := Nat.cast_pos.mpr positive
  rw [← RestartTimer.keepsUp_iff positive]
  refine forall_congr' fun time => imp_congr ?_ ?_
  · simp only [List.mem_map, exists_exists_and_eq_and]
  · rw [playoutTicks_eq_firedBy, sub_le_iff_le_add, div_le_iff₀ positive', Timers.start,
      Nat.cast_zero, zero_add, add_one_mul, add_mul, add_assoc, ← two_mul]

/-- An iteration in which nothing arrives. -/
def idle (now : Instant) : Iteration Unit := ⟨Sample.env 0 now, none, []⟩

/-- **The frame rate is not always kept**: iterations that come 2.499 ms apart leave every
second one without a tick. -/
theorem frame_rate_halved :
    ¬ ∀ iterations : List (Iteration Unit),
      (0 :: iterations.map fun iteration => iteration.env.now).IsChain
        (fun before now => before ≤ now ∧ now ≤ before + frameDuration) →
      ∀ time : ℚ, (∃ iteration ∈ iterations, time ≤ iteration.env.now) →
        time / frameDuration - 2 ≤ playoutTicks (Timers.start 0) iterations time := by
  intro claim
  have kept := claim [idle 2499000, idle 4998000, idle 7497000, idle 9996000]
    (by decide +kernel) 9995000 ⟨idle 9996000, by simp, by norm_num [idle, Sample.env, Env.ideal]⟩
  exact absurd kept (by decide +kernel)

end VoiceChat
