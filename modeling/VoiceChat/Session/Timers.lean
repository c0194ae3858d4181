import VoiceChat.Session.Run

/-!
# The timers of a running session

Four timers of the main loop call for chores: the playout, the keepalives, the pings
and the adaptation. Each is a timer of its own that is polled once in an iteration,
whatever else the iteration does. So in every run a chore is never done before its
interval has passed, and less than a gap late when the iterations come at most a gap
apart (`chores_on_time`).

The adaptation is told how much time has passed since the last one. Nothing of the
time gets lost: what all adaptations are told adds up to the time of the last
(`elapsed_eq`).
-/

set_option autoImplicit false

namespace VoiceChat

/-- What the main loop does from time to time. -/
inductive Chore where
  | playout
  | keepalive
  | ping
  | adapt
  deriving DecidableEq

/-- The chore that an event is. -/
def Node.Event.chore? : Node.Event → Option Chore
  | .recv _ _ => none
  | .frame _ => none
  | .playout => some .playout
  | .keepalive => some .keepalive
  | .ping => some .ping
  | .adapt _ => some .adapt

/-- The time that an event accounts for to the jitter buffers. -/
def Node.Event.elapsed : Node.Event → ℚ
  | .adapt elapsedSecs => elapsedSecs
  | _ => 0

namespace Chore

/-- How often a chore is due, in nanoseconds. -/
def interval : Chore → ℕ
  | .playout => frameDuration
  | .keepalive => 10 ^ 9
  | .ping => pingIntervalSecs * 10 ^ 9
  | .adapt => 10 ^ 9 / 2

/-- When a chore was done last. -/
def last (timers : Timers) : Chore → Instant
  | .playout => timers.lastPlayout
  | .keepalive => timers.lastKeepalive
  | .ping => timers.lastPing
  | .adapt => timers.lastAdapt

theorem interval_pos (chore : Chore) : 0 < chore.interval := by
  cases chore with
  | playout => exact Nat.succ_pos _
  | keepalive => exact Nat.succ_pos _
  | ping => exact Nat.succ_pos _
  | adapt => decide

variable {D : Type}

/-- When an event is met that is the chore. -/
def doneAt? (chore : Chore) (input : Env D × Node.Event) : Option Instant :=
  if input.2.chore? = some chore then some input.1.now else none

theorem doneAt?_of_eq {chore : Chore} {env : Env D} {event : Node.Event}
    (same : event.chore? = some chore) : chore.doneAt? (env, event) = some env.now := if_pos same

theorem doneAt?_of_ne {chore : Chore} {env : Env D} {event : Node.Event}
    (other : event.chore? ≠ some chore) : chore.doneAt? (env, event) = none := if_neg other

/-- A poll is one of the timer with its interval. -/
theorem filterMap_poll (chore : Chore) {polled : Chore} {event : Node.Event}
    (kind : event.chore? = some polled) (last : Instant) (env : Env D) :
    ((Timers.poll polled.interval last env.now event).1.map fun event => (env, event)).filterMap
        chore.doneAt? =
      if polled = chore then ((RestartTimer.timer polled.interval).step last env.now).2 else [] := by
  unfold Timers.poll
  by_cases due : polled.interval ≤ env.now - last
  · rw [if_pos due, RestartTimer.step_of_due due, List.map_singleton]
    split_ifs with same
    · rw [List.filterMap_cons_some (doneAt?_of_eq (kind.trans (congrArg some same)))]
      rfl
    · rw [List.filterMap_cons_none
        (doneAt?_of_ne fun done => same (Option.some.inj (kind.symm.trans done)))]
      rfl
  · rw [if_neg due, RestartTimer.step_of_not_due (Nat.lt_of_not_le due)]
    split_ifs <;> rfl

theorem last_poll (interval : ℕ) (last now : Instant) (event : Node.Event) :
    (Timers.poll interval last now event).2 =
      ((RestartTimer.timer interval).step last now).1 := by
  unfold Timers.poll RestartTimer.timer
  dsimp only
  split_ifs <;> rfl

/-- What arrives is no chore. -/
theorem filterMap_arrived (chore : Chore) (iteration : Iteration D) :
    (iteration.arrived.map fun event => (iteration.env, event)).filterMap chore.doneAt? = [] := by
  rw [List.filterMap_eq_nil_iff]
  intro input member
  obtain ⟨event, arrived, rfl⟩ := List.mem_map.mp member
  refine doneAt?_of_ne ?_
  rcases List.mem_append.mp arrived with received | frame
  · obtain ⟨datagram, _, rfl⟩ := Option.map_eq_some_iff.mp (Option.mem_toList.mp received)
    exact nofun
  · obtain ⟨opus, _, rfl⟩ := List.mem_map.mp frame
    exact nofun

/-- **One iteration** polls the timer of each chore. -/
theorem mainLoop_step (chore : Chore) (timers : Timers) (iteration : Iteration D) :
    chore.last ((mainLoop D).step timers iteration).1 =
        ((RestartTimer.timer chore.interval).step (chore.last timers) iteration.env.now).1 ∧
      ((mainLoop D).step timers iteration).2.filterMap chore.doneAt? =
        ((RestartTimer.timer chore.interval).step (chore.last timers) iteration.env.now).2 := by
  constructor
  · cases chore with
    | playout => exact last_poll ..
    | keepalive => exact last_poll ..
    | ping => exact last_poll ..
    | adapt => exact last_poll ..
  · let now := iteration.env.now
    let elapsed := ((now - timers.lastAdapt : Nat) : ℚ) / 10 ^ 9
    have events : ((mainLoop D).step timers iteration).2 =
        (iteration.arrived.map fun event => (iteration.env, event)) ++
          (((((Timers.poll playout.interval timers.lastPlayout now .playout).1 ++
            (Timers.poll keepalive.interval timers.lastKeepalive now .keepalive).1) ++
            (Timers.poll ping.interval timers.lastPing now .ping).1) ++
            (Timers.poll adapt.interval timers.lastAdapt now (.adapt elapsed)).1).map
              fun event => (iteration.env, event)) := List.map_append
    rw [events, List.filterMap_append, filterMap_arrived, List.nil_append]
    simp only [List.map_append, List.filterMap_append]
    rw [filterMap_poll chore rfl, filterMap_poll chore rfl, filterMap_poll chore rfl,
      filterMap_poll chore rfl]
    -- of the four polls only that of the chore is left
    cases chore <;>
      simp only [reduceCtorEq, ↓reduceIte, List.append_nil, List.nil_append] <;> rfl

/-- Over a run, a chore is done when its timer fires. -/
theorem mainLoop_run (chore : Chore) (timers : Timers) (iterations : List (Iteration D)) :
    chore.last ((mainLoop D).run timers iterations) =
        (RestartTimer.timer chore.interval).run (chore.last timers)
          (iterations.map fun iteration => iteration.env.now) ∧
      ((mainLoop D).outputs timers iterations).filterMap chore.doneAt? =
        (RestartTimer.timer chore.interval).outputs (chore.last timers)
          (iterations.map fun iteration => iteration.env.now) := by
  induction iterations generalizing timers with
  | nil => exact ⟨rfl, rfl⟩
  | cons iteration rest ih =>
    obtain ⟨last, done⟩ := chore.mainLoop_step timers iteration
    obtain ⟨run, outputs⟩ := ih ((mainLoop D).step timers iteration).1
    rw [List.map_cons, Machine.run_cons, Machine.run_cons, Machine.outputs_cons,
      Machine.outputs_cons, List.filterMap_append, done, run, outputs, last]
    exact ⟨rfl, rfl⟩

end Chore

/-! ## The time that the adaptation is told -/

variable {D : Type}

theorem Timers.elapsed_poll (interval : ℕ) (last now : Instant) {event : Node.Event}
    (none : event.elapsed = 0) : ((poll interval last now event).1.map Node.Event.elapsed).sum = 0 := by
  unfold poll
  split_ifs
  · exact (List.sum_singleton).trans none
  · rfl

theorem Iteration.elapsed_arrived (iteration : Iteration D) :
    (iteration.arrived.map Node.Event.elapsed).sum = 0 := by
  refine List.sum_eq_zero fun elapsed member => ?_
  obtain ⟨event, arrived, rfl⟩ := List.mem_map.mp member
  rcases List.mem_append.mp arrived with received | frame
  · obtain ⟨datagram, _, rfl⟩ := Option.map_eq_some_iff.mp (Option.mem_toList.mp received)
    rfl
  · obtain ⟨opus, _, rfl⟩ := List.mem_map.mp frame
    rfl

theorem elapsed_nonneg_of_poll {interval : ℕ} {last now : Instant} {event event' : Node.Event}
    (forward : 0 ≤ event.elapsed) (member : event' ∈ (Timers.poll interval last now event).1) :
    0 ≤ event'.elapsed :=
  Timers.eq_of_mem_poll member ▸ forward

/-- No event takes time back. -/
theorem elapsed_nonneg (timers : Timers) (iterations : List (Iteration D)) :
    ∀ input ∈ (mainLoop D).outputs timers iterations, 0 ≤ input.2.elapsed := by
  intro input member
  obtain ⟨timers', iteration, -, -, out⟩ := (mainLoop D).mem_outputs (fun _ => True)
    (fun _ _ _ => trivial) trivial member
  obtain ⟨event, inside, rfl⟩ := List.mem_map.mp out
  rcases List.mem_append.mp inside with arrived | due
  · rcases List.mem_append.mp arrived with received | frame
    · obtain ⟨datagram, _, rfl⟩ := Option.map_eq_some_iff.mp (Option.mem_toList.mp received)
      exact le_rfl
    · obtain ⟨opus, _, rfl⟩ := List.mem_map.mp frame
      exact le_rfl
  · rcases List.mem_append.mp due with others | adapt
    · rcases List.mem_append.mp others with others | ping
      · rcases List.mem_append.mp others with playout | keepalive
        · exact elapsed_nonneg_of_poll le_rfl playout
        · exact elapsed_nonneg_of_poll le_rfl keepalive
      · exact elapsed_nonneg_of_poll le_rfl ping
    · refine elapsed_nonneg_of_poll ?_ adapt
      exact div_nonneg (Nat.cast_nonneg _) (by norm_num)

/-- An iteration that adapts tells all the time since the last adaptation. -/
theorem elapsed_step (timers : Timers) (iteration : Iteration D) :
    (((mainLoop D).step timers iteration).2.map fun input => input.2.elapsed).sum =
      ((((mainLoop D).step timers iteration).1.lastAdapt : ℚ) - timers.lastAdapt) / 10 ^ 9 := by
  let now := iteration.env.now
  let elapsed := ((now - timers.lastAdapt : Nat) : ℚ) / 10 ^ 9
  have events : ((mainLoop D).step timers iteration).2.map (fun input => input.2.elapsed) =
      (iteration.arrived ++
        ((((Timers.poll frameDuration timers.lastPlayout now .playout).1 ++
          (Timers.poll (10 ^ 9) timers.lastKeepalive now .keepalive).1) ++
          (Timers.poll (pingIntervalSecs * 10 ^ 9) timers.lastPing now .ping).1) ++
          (Timers.poll (10 ^ 9 / 2) timers.lastAdapt now (.adapt elapsed)).1)).map
            Node.Event.elapsed := List.map_map
  have last : ((mainLoop D).step timers iteration).1.lastAdapt =
      (Timers.poll (10 ^ 9 / 2) timers.lastAdapt now (.adapt elapsed)).2 := rfl
  rw [events, last]
  simp only [List.map_append, List.sum_append, iteration.elapsed_arrived]
  rw [Timers.elapsed_poll _ _ _ rfl, Timers.elapsed_poll _ _ _ rfl, Timers.elapsed_poll _ _ _ rfl]
  unfold Timers.poll
  split_ifs with due
  · have after : timers.lastAdapt ≤ now := by unfold Instant at *; omega
    rw [List.map_singleton, List.sum_singleton]
    simp only [Node.Event.elapsed, elapsed, add_zero, zero_add]
    rw [Nat.cast_sub after]
  · simp

/-- **No time gets lost** between the adaptations of a run. -/
theorem elapsed_eq (timers : Timers) (iterations : List (Iteration D)) :
    (((mainLoop D).outputs timers iterations).map fun input => input.2.elapsed).sum =
      ((((mainLoop D).run timers iterations).lastAdapt : ℚ) - timers.lastAdapt) / 10 ^ 9 := by
  induction iterations generalizing timers with
  | nil => simp
  | cons iteration rest ih =>
    rw [Machine.outputs_cons, List.map_append, List.sum_append, elapsed_step, ih,
      Machine.run_cons]
    ring

/-! ## Running sessions -/

namespace RunState

variable {σ E : Type} (prim : Primitives D) (audio : AudioLibrary σ E)

/-- The iterations of a run come when its turns do. -/
theorem iterations_now (s : RunState σ E D) (turns : List (Turn D)) :
    (s.iterations audio turns).map (fun iteration => iteration.env.now) =
      turns.map fun turn => turn.env.now := by
  unfold iterations
  generalize s.capture = capture
  induction turns generalizing capture with
  | nil => rfl
  | cons turn rest ih =>
    rw [Machine.outputs_cons, List.map_append, ih]
    rfl

/-- **The chores are done on time.** In every run of a session whose iterations come at
most a gap apart, no chore is done before its interval has passed or as much as a gap
after, and whenever an iteration comes, every chore was done within its interval. -/
theorem chores_on_time (chore : Chore) (node : Node D) (noiseSuppression : Bool)
    (vadConfig : VadConfig) (mode : InputMode) (encoder : E) (start : Instant) (gap : ℕ)
    (turns : List (Turn D))
    (steady : (start :: turns.map fun turn => turn.env.now).IsChain
      fun before now => before ≤ now ∧ now ≤ before + gap) :
    let s := RunState.start audio node noiseSuppression vadConfig mode encoder start
    let done := start :: (s.events audio turns).filterMap chore.doneAt?
    done.IsChain (fun before now =>
        before + chore.interval ≤ now ∧ now < before + chore.interval + gap) ∧
      ∀ turn ∈ turns, ∃ before ∈ done, before ≤ turn.env.now ∧
        turn.env.now < before + chore.interval := by
  intro s done
  have positive := chore.interval_pos
  have started : chore.last s.timers = start := by cases chore <;> rfl
  have fired : done = start :: (RestartTimer.timer chore.interval).outputs start
      (turns.map fun turn => turn.env.now) := by
    rw [← s.iterations_now audio turns, ← started, ← (chore.mainLoop_run _ _).2, started]
    rfl
  rw [fired]
  refine ⟨RestartTimer.spaced positive le_rfl (Nat.lt_add_of_pos_right positive) steady, ?_⟩
  intro turn member
  exact RestartTimer.recent positive le_rfl (steady.imp fun _ _ step => step.1) turn.env.now
    (List.mem_map_of_mem member)

/-- A host that comes round every four tenths of a second adapts in every second turn. -/
theorem adapts_on_time :
    let s := RunState.start AudioLibrary.transparent Sample.host true VadConfig.default .alwaysOn
      () 0
    let turns := (List.range 6).map fun n => Sample.turn (400000000 * (n + 1))
    let done := 0 :: (s.events AudioLibrary.transparent turns).filterMap Chore.adapt.doneAt?
    done = [0, 800000000, 1600000000, 2400000000] ∧
    done.IsChain (fun before now =>
        before + Chore.adapt.interval ≤ now ∧ now < before + Chore.adapt.interval + 400000000) ∧
      ∀ turn ∈ turns, ∃ before ∈ done, before ≤ turn.env.now ∧
        turn.env.now < before + Chore.adapt.interval := by
  intro s turns done
  exact ⟨by decide +kernel, chores_on_time AudioLibrary.transparent .adapt Sample.host true
    VadConfig.default .alwaysOn () 0 400000000 turns (by decide)⟩

end RunState

end VoiceChat
