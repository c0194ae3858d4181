import VoiceChat.Jitter.Recovery
import VoiceChat.Jitter.Reordering

/-!
# How far playout falls behind

On a tick schedule the sender numbers one frame for each tick; the frame is pushed in
its tick or lost, and the receiver pops once in every tick. Popping an empty buffer
leaves the playout position where it is, so every lost frame that finds the buffer
empty puts playout one frame further behind. After a gap that is longer than the
present delay the delay is as long as the gap, and it is never shortened again.

`OnTime` says of a loss pattern that no frame is taken in after too long a gap, and
`delay_bounded_iff` that this decides whether the newest pushed frame stays close to
the next one to be played. The invariant is `Tracks`: the buffer is empty and playout
is behind by the gap, or the newest pushed frame is still buffered.
-/

set_option autoImplicit false

namespace VoiceChat

namespace JitterBuffer

open SerialNumber

variable {Pcm : Type}

/-! ## The schedule -/

/-- A receiver on a tick schedule: its buffer, the number of the frame of the next
tick, and the number that was pushed last. -/
structure Line (Pcm : Type) where
  buffer : JitterBuffer Pcm
  upcoming : UInt16
  newest : Option UInt16

/-- The receiver before the first tick. -/
def Line.start (first : UInt16) : Line Pcm := ⟨new, first, none⟩

/-- One tick: the frame of the tick is pushed, unless it was lost, and a frame is
popped. -/
def tickMachine (Pcm : Type) : Machine (Line Pcm) (Option Pcm) (Option Pcm) where
  step line
    | some pcm =>
        let result := (line.buffer.push line.upcoming pcm).pop
        (⟨result.2, line.upcoming + 1, some line.upcoming⟩, [result.1])
    | none =>
        let result := line.buffer.pop
        (⟨result.2, line.upcoming + 1, line.newest⟩, [result.1])

/-- Once playout has started, the newest pushed frame is at most `bound` ahead of the
next one to be played. -/
def Line.Close (bound : ℕ) (line : Line Pcm) : Prop :=
  ∀ next seqNum, line.buffer.nextPlayoutSeq = some next → line.newest = some seqNum →
    lead next seqNum ≤ bound

/-- No frame of a loss pattern is taken in after a gap of more than `bound + 1` lost
ones, where `gap` counts the ticks since the last frame that was taken in. A frame that
comes half a circle late is not taken in. -/
def OnTime (bound : ℕ) : ℕ → List (Option Pcm) → Prop
  | _, [] => True
  | gap, none :: rest => OnTime bound (gap + 1) rest
  | gap, some _ :: rest =>
      if gap % 65536 ≤ bound + 1 then OnTime bound 0 rest
      else 32768 ≤ gap % 65536 ∧ OnTime bound (gap + 1) rest

/-! ## What a tick does to the delay -/

/-- The state of the receiver `gap` ticks after it last took a frame in. The delay is
the distance from the next number to be played to the upcoming one: it is the gap when
nothing is buffered, and otherwise the newest pushed frame is buffered still. -/
structure Line.Tracks (bound gap : ℕ) (line : Line Pcm) (next seqNum : UInt16) : Prop where
  started : line.buffer.nextPlayoutSeq = some next
  newest : line.newest = some seqNum
  distinct : line.buffer.NoDuplicates
  older : ∀ f ∈ line.buffer.frames, ahead next f.seqNum + 1 + gap ≤ ahead next line.upcoming
  drained : line.buffer.frames = [] →
    ahead next line.upcoming = gap % 65536 ∧ lead next seqNum ≤ bound
  holding : line.buffer.frames ≠ [] → ahead next line.upcoming ≤ bound + 1 ∧
    ∃ f ∈ line.buffer.frames, f.seqNum = seqNum ∧
      ahead next seqNum + 1 + gap = ahead next line.upcoming

theorem ahead_succ (n s : UInt16) : ahead n (s + 1) = (ahead n s + 1) % 65536 := by
  have step : ahead s (s + 1) = 1 := by
    rw [ahead, add_sub_cancel_left]
    rfl
  rw [← ahead_add_ahead n s (s + 1), step]

/-- The number played last lies behind the next one. -/
theorem lead_played (n : UInt16) (bound : ℕ) : lead (n + 1) n ≤ bound := by
  have behind : ahead (n + 1) n = 65535 := by
    rw [ahead, show n - (n + 1) = -1 by abel]
    rfl
  unfold lead
  rw [if_neg (by omega), behind]
  omega

theorem lead_eq {n s : UInt16} (near : ahead n s < 32768) : lead n s = ahead n s := by
  rw [lead, if_pos near]

namespace Line

variable {bound gap : ℕ} {line : Line Pcm} {next seqNum : UInt16}

theorem Tracks.close (tracks : line.Tracks bound gap next seqNum)
    (small : bound + 1 < 2 * maxDepth) : line.Close bound := by
  intro next' seqNum' started newest
  rw [tracks.started, Option.some.injEq] at started
  rw [tracks.newest, Option.some.injEq] at newest
  subst started newest
  by_cases empty : line.buffer.frames = []
  · exact (tracks.drained empty).2
  · obtain ⟨delay, _, _, _, here⟩ := tracks.holding empty
    have : maxDepth = 4 := rfl
    rw [lead_eq (by omega)]
    omega

/-- A lost frame: what is buffered is played, and the gap grows. -/
theorem Tracks.lost (tracks : line.Tracks bound gap next seqNum)
    (small : bound + 1 < 2 * maxDepth) :
    ∃ next', ((tickMachine Pcm).step line none).1.Tracks bound (gap + 1) next' seqNum := by
  have depth : maxDepth = 4 := rfl
  have upcoming := ahead_succ next line.upcoming
  by_cases empty : line.buffer.frames = []
  · obtain ⟨delay, near⟩ := tracks.drained empty
    refine ⟨next, ?_⟩
    change Tracks bound (gap + 1) ⟨line.buffer.pop.2, line.upcoming + 1, line.newest⟩ next seqNum
    rw [pop_of_empty empty]
    refine ⟨tracks.started, tracks.newest, tracks.distinct, fun f member => ?_,
      fun _ => ⟨?_, near⟩, fun nonempty => absurd empty nonempty⟩
    · rw [empty] at member
      cases member
    · change ahead next (line.upcoming + 1) = _
      omega
  · obtain ⟨delay, g, buffered, rfl, here⟩ := tracks.holding empty
    obtain ⟨started, frames⟩ := mem_pop_of_started tracks.distinct tracks.started empty
    have moved : ahead (next + 1) (line.upcoming + 1) = ahead next line.upcoming :=
      ahead_add_add ..
    refine ⟨next + 1, started, tracks.newest,
      noDuplicates_step line.buffer .pop tracks.distinct, fun f member => ?_, fun played => ?_,
      fun more => ?_⟩
    · obtain ⟨old, different⟩ := (frames f).mp member
      have := tracks.older f old
      have := ahead_add_one different
      change _ ≤ ahead (next + 1) (line.upcoming + 1)
      omega
    · have last : g.seqNum = next := by
        by_contra different
        have kept : g ∈ line.buffer.pop.2.frames := (frames g).mpr ⟨buffered, different⟩
        rw [show line.buffer.pop.2.frames = [] from played] at kept
        cases kept
      rw [last] at here ⊢
      rw [ahead_self] at here
      refine ⟨?_, lead_played next bound⟩
      change ahead (next + 1) (line.upcoming + 1) = _
      omega
    · obtain ⟨f, member⟩ := List.exists_mem_of_ne_nil _ more
      obtain ⟨old, different⟩ := (frames f).mp member
      have := tracks.older f old
      have := ahead_add_one different
      have ahead' : g.seqNum ≠ next := fun same => by
        rw [same, ahead_self] at here
        omega
      have := ahead_add_one ahead'
      change ahead (next + 1) (line.upcoming + 1) ≤ _ ∧ ∃ f ∈ _, _ ∧
        _ = ahead (next + 1) (line.upcoming + 1)
      exact ⟨by omega, g, (frames g).mpr ⟨buffered, ahead'⟩, rfl, by omega⟩

/-- Nothing is buffered after a long gap. -/
theorem Tracks.empty_of_lt (tracks : line.Tracks bound gap next seqNum)
    (long : bound + 1 < gap % 65536) : line.buffer.frames = [] := by
  by_contra nonempty
  obtain ⟨delay, _, _, _, here⟩ := tracks.holding nonempty
  have := Nat.mod_le gap 65536
  omega

/-- The frame of the tick is taken in when it is less than half a circle ahead. -/
theorem Tracks.accepts (tracks : line.Tracks bound gap next seqNum)
    (small : bound + 1 < 2 * maxDepth) (near : ahead next line.upcoming < 32768) :
    line.buffer.Accepts line.upcoming := by
  refine ⟨?_, contains_eq_false.mpr fun f member same => ?_, ?_⟩
  · rw [isLate, tracks.started, decide_eq_false_iff_not]
    intro old
    have : (32767 : UInt16).toNat < (line.upcoming - next).toNat := UInt16.lt_iff_toNat_lt.mp old
    have near' : (line.upcoming - next).toNat < 32768 := near
    have : (32767 : UInt16).toNat = 32767 := rfl
    omega
  · have := tracks.older f member
    rw [same] at this
    omega
  · by_cases empty : line.buffer.frames = []
    · rw [empty]
      exact Nat.zero_lt_succ _
    · have below : line.buffer.offsets next ⊆ Finset.range (ahead next line.upcoming) := by
        intro x member
        obtain ⟨f, buffered, rfl⟩ := mem_offsets.mp member
        have := tracks.older f buffered
        exact Finset.mem_range.mpr (by omega)
      have card := Finset.card_le_card below
      rw [card_offsets tracks.distinct, Finset.card_range] at card
      have := (tracks.holding empty).1
      omega

/-- What remains after a tick whose frame is taken in. -/
theorem Tracks.tick_frames (tracks : line.Tracks bound gap next seqNum)
    (accepts : line.buffer.Accepts line.upcoming) (pcm : Pcm) :
    let buffer := ((tickMachine Pcm).step line (some pcm)).1.buffer
    buffer.nextPlayoutSeq = some (next + 1) ∧ buffer.NoDuplicates ∧
      ∀ f, f ∈ buffer.frames ↔
        (f = ⟨line.upcoming, pcm⟩ ∨ f ∈ line.buffer.frames) ∧ f.seqNum ≠ next := by
  have perm := push_frames_of_accepts accepts pcm
  have distinct := noDuplicates_step line.buffer (.push line.upcoming pcm) tracks.distinct
  have nonempty : (line.buffer.push line.upcoming pcm).frames ≠ [] := fun empty => by
    rw [empty] at perm
    exact absurd perm.length_eq (by simp)
  have started : (line.buffer.push line.upcoming pcm).nextPlayoutSeq = some next := by
    rw [push_nextPlayoutSeq, tracks.started]
  obtain ⟨started', frames⟩ := mem_pop_of_started distinct started nonempty
  refine ⟨started', noDuplicates_step _ .pop distinct, fun f => ?_⟩
  rw [← List.mem_cons, ← perm.mem_iff]
  exact frames f

/-- A frame that comes after a short gap is taken in, and the delay stays. -/
theorem Tracks.received (tracks : line.Tracks bound gap next seqNum)
    (small : bound + 1 < 2 * maxDepth) (short : gap % 65536 ≤ bound + 1) (pcm : Pcm) :
    ((tickMachine Pcm).step line (some pcm)).1.Tracks bound 0 (next + 1) line.upcoming := by
  have depth : maxDepth = 4 := rfl
  have delay : ahead next line.upcoming ≤ bound + 1 := by
    by_cases empty : line.buffer.frames = []
    · rw [(tracks.drained empty).1]
      exact short
    · exact (tracks.holding empty).1
  obtain ⟨started, distinct, frames⟩ := tracks.tick_frames (tracks.accepts small (by omega)) pcm
  have moved : ahead (next + 1) (line.upcoming + 1) = ahead next line.upcoming :=
    ahead_add_add ..
  refine ⟨started, rfl, distinct, fun f member => ?_, fun played => ?_, fun more => ?_⟩
  · obtain ⟨here, different⟩ := (frames f).mp member
    have := ahead_add_one different
    change _ ≤ ahead (next + 1) (line.upcoming + 1)
    rcases here with rfl | old
    · change ahead (next + 1) line.upcoming + 1 = ahead next line.upcoming at this
      change ahead (next + 1) line.upcoming + 1 + 0 ≤ _
      omega
    · have := tracks.older f old
      omega
  · have same : line.upcoming = next := by
      by_contra different
      have kept := (frames ⟨line.upcoming, pcm⟩).mpr ⟨Or.inl rfl, different⟩
      rw [played] at kept
      cases kept
    rw [same]
    refine ⟨?_, lead_played next bound⟩
    change ahead (next + 1) (line.upcoming + 1) = _
    rw [moved, same, ahead_self]
  · obtain ⟨f, member⟩ := List.exists_mem_of_ne_nil _ more
    obtain ⟨here, different⟩ := (frames f).mp member
    have ahead' : line.upcoming ≠ next := fun same => by
      rcases here with rfl | old
      · exact different same
      · have := tracks.older f old
        rw [same, ahead_self] at this
        omega
    have := ahead_add_one ahead'
    change ahead (next + 1) (line.upcoming + 1) ≤ _ ∧ ∃ f ∈ _, _ ∧
      _ = ahead (next + 1) (line.upcoming + 1)
    exact ⟨by omega, ⟨line.upcoming, pcm⟩, (frames _).mpr ⟨Or.inl rfl, ahead'⟩, rfl, by omega⟩

/-- A frame that comes half a circle late is refused. -/
theorem Tracks.refused (tracks : line.Tracks bound gap next seqNum)
    (small : bound + 1 < 2 * maxDepth) (late : 32768 ≤ gap % 65536) (pcm : Pcm) :
    ((tickMachine Pcm).step line (some pcm)).1.Tracks bound (gap + 1) next line.upcoming := by
  have depth : maxDepth = 4 := rfl
  have empty := tracks.empty_of_lt (by omega)
  have delay := (tracks.drained empty).1
  have upcoming := ahead_succ next line.upcoming
  have refused : ¬ line.buffer.Accepts line.upcoming := by
    intro accepts
    have onTime := accepts.1
    rw [isLate, tracks.started, decide_eq_false_iff_not] at onTime
    refine onTime (UInt16.lt_iff_toNat_lt.mpr ?_)
    change 32767 < ahead next line.upcoming
    omega
  have empty' : (line.buffer.push line.upcoming pcm).frames = [] := by
    rw [push_frames_of_not_accepts refused, empty]
  change Tracks bound (gap + 1) ⟨(line.buffer.push line.upcoming pcm).pop.2, line.upcoming + 1,
    some line.upcoming⟩ next line.upcoming
  rw [pop_of_empty empty']
  refine ⟨?_, rfl, noDuplicates_step line.buffer (.push line.upcoming pcm) tracks.distinct,
    fun f member => ?_, fun _ => ⟨?_, ?_⟩, fun nonempty => absurd empty' nonempty⟩
  · rw [push_nextPlayoutSeq, tracks.started]
  · rw [show (line.buffer.push line.upcoming pcm).frames = [] from empty'] at member
    cases member
  · change ahead next (line.upcoming + 1) = _
    omega
  · have := ahead_lt next line.upcoming
    unfold lead
    rw [if_neg (by omega)]
    omega

/-- A frame that comes after too long a gap leaves playout too far behind. -/
theorem Tracks.not_close (tracks : line.Tracks bound gap next seqNum)
    (small : bound + 1 < 2 * maxDepth) (long : bound + 1 < gap % 65536)
    (near : gap % 65536 < 32768) (pcm : Pcm) :
    ¬ ((tickMachine Pcm).step line (some pcm)).1.Close bound := by
  intro close
  have delay := (tracks.drained (tracks.empty_of_lt long)).1
  obtain ⟨started, _⟩ := tracks.tick_frames (tracks.accepts small (by omega)) pcm
  have different : line.upcoming ≠ next := fun same => by
    rw [same, ahead_self] at delay
    omega
  have := ahead_add_one different
  have within := close (next + 1) line.upcoming started rfl
  rw [lead_eq (by omega)] at within
  omega

/-! ## A whole loss pattern -/

/-- **From a state that tracks its gap on**, the delay stays within the bound exactly
when no frame comes after too long a gap. -/
theorem Tracks.close_iff (small : bound + 1 < 2 * maxDepth) {pattern : List (Option Pcm)}
    (tracks : line.Tracks bound gap next seqNum) :
    (∀ done, done <+: pattern → ((tickMachine Pcm).run line done).Close bound) ↔
      OnTime bound gap pattern := by
  induction pattern generalizing gap line next seqNum with
  | nil =>
      refine iff_of_true (fun done inside => ?_) trivial
      rw [List.prefix_nil.mp inside]
      exact tracks.close small
  | cons arrival rest ih =>
      rw [Machine.forall_prefix_cons, Machine.run_nil, and_iff_right (tracks.close small)]
      cases arrival with
      | none =>
          obtain ⟨next', tracks'⟩ := tracks.lost small
          exact ih tracks'
      | some pcm =>
          rw [OnTime]
          split_ifs with short
          · exact ih (tracks.received small short pcm)
          · by_cases late : 32768 ≤ gap % 65536
            · rw [and_iff_right late]
              exact ih (tracks.refused small late pcm)
            · refine iff_of_false (fun always => ?_) fun onTime => late onTime.1
              exact tracks.not_close small (by omega) (by omega) pcm (always [] List.nil_prefix)

theorem tracks_first (first : UInt16) (pcm : Pcm) :
    ((tickMachine Pcm).step (start first) (some pcm)).1.Tracks bound 0 (first + 1) first := by
  have played : ((new : JitterBuffer Pcm).push first pcm).pop.2 =
      { (new : JitterBuffer Pcm) with nextPlayoutSeq := some (first + 1), totalPackets := 1 } := by
    simp [push, new, isLate, contains, pop, expected, position, initialDepth, maxDepth,
      insertPos]
  change Tracks bound 0 ⟨((new : JitterBuffer Pcm).push first pcm).pop.2, first + 1, some first⟩ _ _
  rw [played]
  refine ⟨rfl, rfl, List.nodup_nil, fun f member => ?_, fun _ => ⟨ahead_self _, lead_played ..⟩,
    fun nonempty => absurd rfl nonempty⟩
  cases member

/-- **How far playout falls behind.** On a tick schedule the newest pushed frame stays
at most `bound` ahead of the next one to be played exactly when, after the first frame,
no frame is taken in after more than `bound + 1` lost ones. -/
theorem close_iff (small : bound + 1 < 2 * maxDepth) (first : UInt16)
    (pattern : List (Option Pcm)) :
    (∀ done, done <+: pattern → ((tickMachine Pcm).run (start first) done).Close bound) ↔
      OnTime bound 0 (pattern.dropWhile Option.isNone) := by
  have waiting : ∀ first, (start first : Line Pcm).Close bound := by
    intro first next seqNum started
    cases started
  induction pattern generalizing first with
  | nil =>
      refine iff_of_true (fun done inside => ?_) trivial
      rw [List.prefix_nil.mp inside]
      exact waiting first
  | cons arrival rest ih =>
      rw [Machine.forall_prefix_cons, Machine.run_nil, and_iff_right (waiting first)]
      cases arrival with
      | none => exact ih (first + 1)
      | some pcm =>
          rw [List.dropWhile_cons_of_neg (by simp), OnTime, if_pos (Nat.zero_le _)]
          exact (tracks_first first pcm).close_iff small

end Line

/-- **The playout delay** stays within the maximum depth exactly when, after the first
frame, no frame is taken in after a gap of more than five lost ones. -/
theorem delay_bounded_iff (first : UInt16) (pattern : List (Option Pcm)) :
    (∀ done, done <+: pattern →
      ∀ next seqNum, ((tickMachine Pcm).run (.start first) done).buffer.nextPlayoutSeq = some next →
        ((tickMachine Pcm).run (.start first) done).newest = some seqNum →
        lead next seqNum ≤ maxDepth) ↔
      OnTime maxDepth 0 (pattern.dropWhile Option.isNone) :=
  Line.close_iff (by decide) first pattern

/-- Six lost frames put playout five frames behind the seventh. -/
theorem delay_after_six_lost :
    ¬ ((tickMachine ℕ).run (.start 0)
      [some 0, none, none, none, none, none, none, some 7]).Close maxDepth := by
  intro close
  exact absurd (close 2 7 (by decide) (by decide)) (by decide)

end JitterBuffer

end VoiceChat
