import VoiceChat.Jitter
import VoiceChat.Library.Waiting

/-!
# Recovery after an outage

After an outage the pushes run `d` numbers ahead of playout. From then on the
network is perfect: each pop is preceded by one push, and the pushed numbers are
consecutive. The lag `d` is never absorbed, because a pop that misses moves
playout by one while the next push moves by one too. The buffer therefore needs
room for the `d` frames between playout and the newest push, besides the frames
that lie behind playout and are never looked for.

The buffer refines a bounded set of distances from the playout position
(`offsets_afterRounds`), and `recovers_iff` reads the result back: it recovers
exactly when `d` plus the number of frames behind playout is below twice the
maximum depth.
-/

set_option autoImplicit false

namespace VoiceChat

namespace JitterBuffer

open SerialNumber

variable {Pcm : Type}

/-! ## The buffer as a set of distances -/

/-- The distances of the buffered frames from a sequence number. -/
def offsets (jb : JitterBuffer Pcm) (next : UInt16) : Waiting :=
  (jb.frames.map fun f => ahead next f.seqNum).toFinset

theorem mem_offsets {jb : JitterBuffer Pcm} {next : UInt16} {x : ℕ} :
    x ∈ jb.offsets next ↔ ∃ f ∈ jb.frames, ahead next f.seqNum = x := by
  simp [offsets]

theorem ahead_mem_offsets {jb : JitterBuffer Pcm} {next seqNum : UInt16} :
    ahead next seqNum ∈ jb.offsets next ↔ ∃ f ∈ jb.frames, f.seqNum = seqNum := by
  simp only [mem_offsets, ahead_inj]

theorem NoDuplicates.nodup_ahead {jb : JitterBuffer Pcm} (distinct : jb.NoDuplicates)
    (next : UInt16) : (jb.frames.map fun f => ahead next f.seqNum).Nodup := by
  have injective : Function.Injective (ahead next) := fun s t same => ahead_inj.mp same
  have := distinct.map injective
  rwa [List.map_map] at this

theorem card_offsets {jb : JitterBuffer Pcm} (distinct : jb.NoDuplicates) (next : UInt16) :
    (jb.offsets next).card = jb.frames.length := by
  rw [offsets, List.toFinset_card_of_nodup (distinct.nodup_ahead next), List.length_map]

/-- A push at most half a circle ahead of playout is an arrival. -/
theorem offsets_push {jb : JitterBuffer Pcm} {next seqNum : UInt16} (distinct : jb.NoDuplicates)
    (started : jb.nextPlayoutSeq = some next) (inWindow : ahead next seqNum ≤ 32767) (pcm : Pcm) :
    (jb.push seqNum pcm).offsets next =
      (jb.offsets next).arrive (2 * maxDepth) (ahead next seqNum) := by
  have onTime : jb.isLate seqNum = false := by
    rw [isLate, started, decide_eq_false_iff_not]
    intro old
    have : (32767 : UInt16).toNat < (seqNum - next).toNat := UInt16.lt_iff_toNat_lt.mp old
    exact absurd inWindow (Nat.not_le.mpr this)
  have taken : jb.Accepts seqNum ↔
      ¬ (ahead next seqNum ∈ jb.offsets next ∨ 2 * maxDepth ≤ (jb.offsets next).card) := by
    rw [Accepts, contains_eq_false, ahead_mem_offsets, card_offsets distinct, not_or, not_le,
      Nat.mul_comm 2]
    simp [onTime]
  rw [Waiting.arrive]
  split_ifs with kept
  · rw [offsets, push_frames_of_not_accepts (fun accepted => taken.mp accepted kept), offsets]
  · have perm := (push_frames_of_accepts (taken.mpr kept) pcm).map fun f => ahead next f.seqNum
    rw [offsets, List.toFinset_eq_of_perm _ _ perm, List.map_cons, List.toFinset_cons, offsets]

/-- When the frames under a number are taken out, the others are one step nearer to the
next number. -/
theorem offsets_advance {jb jb' : JitterBuffer Pcm} {next : UInt16}
    (kept : ∀ f, f ∈ jb'.frames ↔ f ∈ jb.frames ∧ f.seqNum ≠ next) :
    jb'.offsets (next + 1) = (jb.offsets next).advance := by
  ext x
  rw [Waiting.mem_advance, mem_offsets, mem_offsets]
  constructor
  · rintro ⟨f, member, rfl⟩
    obtain ⟨old, different⟩ := (kept f).mp member
    exact ⟨f, old, (ahead_add_one different).symm⟩
  · rintro ⟨f, member, distance⟩
    have different : f.seqNum ≠ next := fun same => by
      rw [same, ahead_self] at distance
      omega
    have := ahead_add_one different
    exact ⟨f, (kept f).mpr ⟨member, different⟩, by omega⟩

/-- A pop looks for distance zero, and moves playout on. -/
theorem pop_offsets {jb : JitterBuffer Pcm} {next : UInt16} (distinct : jb.NoDuplicates)
    (started : jb.nextPlayoutSeq = some next) (nonempty : jb.frames ≠ []) :
    (jb.pop.1.isSome ↔ 0 ∈ jb.offsets next) ∧
      jb.pop.2.offsets (next + 1) = (jb.offsets next).advance ∧
      jb.pop.2.nextPlayoutSeq = some (next + 1) := by
  have zero : 0 ∈ jb.offsets next ↔ ∃ f ∈ jb.frames, f.seqNum = next := by
    rw [← ahead_mem_offsets, ahead_self]
  obtain ⟨moved, kept⟩ := mem_pop_of_started distinct started nonempty
  refine ⟨?_, offsets_advance kept, moved⟩
  have returns := (pop_of_started distinct started nonempty).1
  rw [zero, Option.isSome_iff_exists]
  constructor
  · rintro ⟨pcm, returned⟩
    exact ⟨_, (returns pcm).mp returned, rfl⟩
  · rintro ⟨f, member, rfl⟩
    exact ⟨f.pcm, (returns f.pcm).mpr member⟩

/-! ## Rounds of one push and one pop -/

/-- What happens between two pops once the network delivers again: the push of
the next frame, with any number of adaptations before and after it. -/
structure Round (Pcm : Type) where
  early : List ℚ
  pcm : Pcm
  late : List ℚ

/-- The operations of a round before its pop. -/
def Round.ops (round : Round Pcm) (seqNum : UInt16) : List (JitterOp Pcm) :=
  round.early.map .adapt ++ .push seqNum round.pcm :: round.late.map .adapt

/-- The state after a number of rounds that push consecutive numbers. -/
def afterRounds (jb : JitterBuffer Pcm) (seqNum : UInt16) (rounds : ℕ → Round Pcm) :
    ℕ → JitterBuffer Pcm
  | 0 => jb
  | k + 1 =>
      ((afterRounds jb seqNum rounds k).run
        ((rounds k).ops (seqNum + UInt16.ofNat k))).pop.2

/-- What the pop of a round returns. -/
def played (jb : JitterBuffer Pcm) (seqNum : UInt16) (rounds : ℕ → Round Pcm) (k : ℕ) :
    Option Pcm :=
  ((jb.afterRounds seqNum rounds k).run ((rounds k).ops (seqNum + UInt16.ofNat k))).pop.1

/-- After `first` pops every further pop returns a frame. -/
def RecoversAfter (jb : JitterBuffer Pcm) (seqNum : UInt16) (rounds : ℕ → Round Pcm)
    (first : ℕ) : Prop :=
  ∀ k, first ≤ k → (jb.played seqNum rounds k).isSome

/-- The buffered frames that lie behind the playout position. -/
def framesBehind (jb : JitterBuffer Pcm) (next : UInt16) : ℕ :=
  (jb.frames.filter fun f => 32767 < ahead next f.seqNum).length

theorem run_adapts (times : List ℚ) (jb : JitterBuffer Pcm) :
    (jb.run (times.map .adapt)).frames = jb.frames ∧
      (jb.run (times.map .adapt)).nextPlayoutSeq = jb.nextPlayoutSeq := by
  induction times generalizing jb with
  | nil => exact ⟨rfl, rfl⟩
  | cons elapsedSecs rest ih =>
      obtain ⟨frames, next⟩ := ih (jb.adapt elapsedSecs)
      exact ⟨frames.trans (adapt_frames ..), next.trans (adapt_nextPlayoutSeq ..)⟩

/-- The operations of a round are an arrival. -/
theorem offsets_round {jb : JitterBuffer Pcm} {next seqNum : UInt16} (distinct : jb.NoDuplicates)
    (started : jb.nextPlayoutSeq = some next) (inWindow : ahead next seqNum ≤ 32767)
    (round : Round Pcm) :
    (jb.run (round.ops seqNum)).offsets next =
        (jb.offsets next).arrive (2 * maxDepth) (ahead next seqNum) ∧
      (jb.run (round.ops seqNum)).nextPlayoutSeq = some next ∧
      (jb.run (round.ops seqNum)).NoDuplicates ∧ (jb.run (round.ops seqNum)).frames ≠ [] := by
  obtain ⟨frames, position⟩ := run_adapts round.early jb
  obtain ⟨frames', position'⟩ := run_adapts round.late
    ((jb.run (round.early.map .adapt)).push seqNum round.pcm)
  have unfolded : jb.run (round.ops seqNum) =
      ((jb.run (round.early.map .adapt)).push seqNum round.pcm).run (round.late.map .adapt) :=
    run_append jb _ _
  have distinct' : (jb.run (round.early.map .adapt)).NoDuplicates := by
    rwa [NoDuplicates, frames]
  have pushed := offsets_push distinct' (position.trans started) inWindow round.pcm
  have arrived : (jb.run (round.ops seqNum)).offsets next =
      (jb.offsets next).arrive (2 * maxDepth) (ahead next seqNum) := by
    rw [unfolded, offsets, frames', ← offsets, pushed, offsets, frames, ← offsets]
  refine ⟨arrived, ?_, ?_, ?_⟩
  · rw [unfolded, position', push_nextPlayoutSeq, position, started]
  · rw [unfolded, NoDuplicates, frames']
    exact noDuplicates_step _ (.push seqNum round.pcm) distinct'
  · obtain ⟨x, member⟩ := arrived ▸ Waiting.arrive_nonempty (by decide) _
    obtain ⟨f, inside, _⟩ := mem_offsets.mp member
    exact List.ne_nil_of_mem inside

/-- **The buffer refines the bounded set of distances.** -/
theorem offsets_afterRounds {jb : JitterBuffer Pcm} {next seqNum : UInt16}
    (distinct : jb.NoDuplicates) (started : jb.nextPlayoutSeq = some next)
    (inWindow : ahead next seqNum ≤ 32767) (rounds : ℕ → Round Pcm) (k : ℕ) :
    (jb.afterRounds seqNum rounds k).offsets (next + UInt16.ofNat k) =
        (jb.offsets next).rounds (2 * maxDepth) (ahead next seqNum) k ∧
      (jb.afterRounds seqNum rounds k).nextPlayoutSeq = some (next + UInt16.ofNat k) ∧
      (jb.afterRounds seqNum rounds k).NoDuplicates := by
  induction k with
  | zero => exact ⟨by simp [afterRounds, Waiting.rounds], by simpa [afterRounds], distinct⟩
  | succ k ih =>
      obtain ⟨same, position, distinct'⟩ := ih
      obtain ⟨arrived, position', distinct'', nonempty⟩ :=
        offsets_round distinct' position (by rwa [ahead_add_add]) (rounds k)
      rw [ahead_add_add, same] at arrived
      obtain ⟨_, advanced, position''⟩ := pop_offsets distinct'' position' nonempty
      have next' : next + UInt16.ofNat k + 1 = next + UInt16.ofNat (k + 1) := by
        rw [UInt16.ofNat_add, add_assoc]
        rfl
      rw [next'] at advanced position''
      refine ⟨?_, position'', noDuplicates_step _ .pop distinct''⟩
      rw [Waiting.rounds, ← arrived]
      exact advanced

/-- A round returns a frame exactly when distance zero is taken after the
arrival. -/
theorem played_isSome {jb : JitterBuffer Pcm} {next seqNum : UInt16}
    (distinct : jb.NoDuplicates) (started : jb.nextPlayoutSeq = some next)
    (inWindow : ahead next seqNum ≤ 32767) (rounds : ℕ → Round Pcm) (k : ℕ) :
    (jb.played seqNum rounds k).isSome ↔
      0 ∈ ((jb.offsets next).rounds (2 * maxDepth) (ahead next seqNum) k).arrive
        (2 * maxDepth) (ahead next seqNum) := by
  obtain ⟨same, position, distinct'⟩ :=
    offsets_afterRounds distinct started inWindow rounds k
  obtain ⟨arrived, position', distinct'', nonempty⟩ :=
    offsets_round distinct' position (by rwa [ahead_add_add]) (rounds k)
  rw [ahead_add_add, same] at arrived
  rw [← arrived]
  exact (pop_offsets distinct'' position' nonempty).1

/-! ## When the buffer recovers -/

/-- In every reachable state at most twice the maximum depth is buffered. -/
theorem length_run_le (ops : List (JitterOp Pcm)) :
    ((new : JitterBuffer Pcm).run ops).frames.length ≤ 2 * maxDepth := by
  refine Machine.invariant (fun jb : JitterBuffer Pcm => jb.frames.length ≤ 2 * maxDepth) ?_
    (Nat.zero_le _) (Machine.along_true _ _ ops)
  intro jb op bound _
  cases op with
  | push seqNum pcm =>
      change (jb.push seqNum pcm).frames.length ≤ _
      by_cases taken : jb.Accepts seqNum
      · rw [(push_frames_of_accepts taken pcm).length_eq, List.length_cons]
        have := taken.2.2
        omega
      · rwa [push_frames_of_not_accepts taken]
  | pop =>
      exact jb.pop_frames_sublist.length_le.trans bound
  | adapt elapsedSecs =>
      change (jb.adapt elapsedSecs).frames.length ≤ _
      rwa [adapt_frames]
  | reset => exact Nat.zero_le _

/-- When the pushes are ahead of every buffered frame, a frame at least as far
as they are lies behind playout. -/
theorem ahead_of_frame {jb : JitterBuffer Pcm} (next : UInt16) {seqNum : UInt16}
    (leads : ∀ f ∈ jb.frames, 0 < ahead f.seqNum seqNum ∧ ahead f.seqNum seqNum ≤ 32767)
    {f : JitterFrame Pcm} (member : f ∈ jb.frames) :
    ahead next f.seqNum < ahead next seqNum ∨
      ahead next seqNum + 32768 < ahead next f.seqNum := by
  obtain ⟨positive, half⟩ := leads f member
  have total := ahead_add_ahead next f.seqNum seqNum
  have bound := ahead_lt next f.seqNum
  omega

theorem card_beyond_offsets {jb : JitterBuffer Pcm} {next seqNum : UInt16}
    (distinct : jb.NoDuplicates) (near : ahead next seqNum < 30000)
    (leads : ∀ f ∈ jb.frames, 0 < ahead f.seqNum seqNum ∧ ahead f.seqNum seqNum ≤ 32767) :
    ((jb.offsets next).beyond (ahead next seqNum)).card = jb.framesBehind next := by
  have same : (jb.offsets next).beyond (ahead next seqNum) =
      ((jb.frames.filter fun f => 32767 < ahead next f.seqNum).map
        fun f => ahead next f.seqNum).toFinset := by
    ext x
    simp only [Waiting.beyond, Finset.mem_filter, mem_offsets, List.mem_toFinset, List.mem_map,
      List.mem_filter, decide_eq_true_eq]
    constructor
    · rintro ⟨⟨f, member, rfl⟩, far⟩
      have := ahead_of_frame next leads member
      exact ⟨f, ⟨member, by omega⟩, rfl⟩
    · rintro ⟨f, ⟨member, far⟩, rfl⟩
      exact ⟨⟨f, member, rfl⟩, by omega⟩
  have nodup := (distinct.nodup_ahead next).sublist
    ((List.filter_sublist (l := jb.frames)
      (p := fun f => 32767 < ahead next f.seqNum)).map fun f => ahead next f.seqNum)
  rw [same, List.toFinset_card_of_nodup nodup, List.length_map, framesBehind]

/-- **When the buffer recovers.** In every reachable state in which playout has
started, with the pushes ahead of every buffered frame and `d < 30000` ahead of
playout, every pop after the first `d + 2 * maxDepth` returns a frame exactly when
`d` and the frames behind playout stay together below `2 * maxDepth`. -/
theorem recovers_iff (history : List (JitterOp Pcm)) (next seqNum : UInt16)
    (rounds : ℕ → Round Pcm)
    (started : ((new : JitterBuffer Pcm).run history).nextPlayoutSeq = some next)
    (near : ahead next seqNum < 30000)
    (leads : ∀ f ∈ ((new : JitterBuffer Pcm).run history).frames,
      0 < ahead f.seqNum seqNum ∧ ahead f.seqNum seqNum ≤ 32767) :
    ((new : JitterBuffer Pcm).run history).RecoversAfter seqNum rounds
        (ahead next seqNum + 2 * maxDepth) ↔
      ahead next seqNum + ((new : JitterBuffer Pcm).run history).framesBehind next <
        2 * maxDepth := by
  have distinct := noDuplicates_run history
  have bound : (((new : JitterBuffer Pcm).run history).offsets next).card ≤ 2 * maxDepth := by
    rw [card_offsets distinct]
    exact length_run_le history
  have far : ∀ x ∈ ((new : JitterBuffer Pcm).run history).offsets next,
      ahead next seqNum ≤ x → ahead next seqNum + 2 * maxDepth + 2 * maxDepth < x := by
    intro x member above
    obtain ⟨f, inside, rfl⟩ := mem_offsets.mp member
    have := ahead_of_frame next leads inside
    simp only [maxDepth]
    omega
  rw [← card_beyond_offsets distinct near leads,
    ← Waiting.playsFrom_iff bound (Nat.le_add_right _ _) far]
  exact forall₂_congr fun k _ => played_isSome distinct started (by omega) rounds k

/-- One frame lost, with playout about to wrap around: the buffer recovers. -/
theorem recovers_after_one_lost :
    ((new : JitterBuffer Nat).run [.push 65535 7, .pop]).RecoversAfter 1 (fun k => ⟨[], k, []⟩)
      (1 + 2 * maxDepth) :=
  (recovers_iff [.push 65535 7, .pop] 0 1 (fun k => ⟨[], k, []⟩) (by decide +kernel)
    (by decide +kernel) (by decide +kernel)).mpr (by decide +kernel)

/-- **A gap of eight frames is never absorbed**: after one played frame and an
outage of eight, the network delivers every frame again and playout still meets
holes. -/
theorem gap_of_eight_not_recovered :
    ¬ ∀ (history : List (JitterOp Nat)) (next seqNum : UInt16) (rounds : ℕ → Round Nat),
      ((new : JitterBuffer Nat).run history).nextPlayoutSeq = some next →
      ahead next seqNum < 30000 →
      (∀ f ∈ ((new : JitterBuffer Nat).run history).frames,
        0 < ahead f.seqNum seqNum ∧ ahead f.seqNum seqNum ≤ 32767) →
      ((new : JitterBuffer Nat).run history).RecoversAfter seqNum rounds
        (ahead next seqNum + 2 * maxDepth) := by
  intro claim
  have recovered := claim [.push 0 0, .pop] 1 9 (fun k => ⟨[], k, []⟩) (by decide +kernel)
    (by decide +kernel) (by decide +kernel) 16 (by decide +kernel)
  exact absurd recovered (by decide +kernel)

end JitterBuffer

end VoiceChat
