import Mathlib.Data.List.Nodup
import Mathlib.Data.List.InsertIdx
import Mathlib.Data.Rat.Defs
import Mathlib.Algebra.Order.Ring.Unbundled.Rat
import VoiceChat.Library.Machine
import VoiceChat.Library.SerialNumber

/-!
# The jitter buffer

The per-peer buffer of decoded frames between the network and playout.
`push` inserts a frame in sequence order unless it is late, a duplicate or the
buffer is full; `pop` gives the frame whose turn it is, and `none` when the
caller has to conceal; `adapt` moves the target depth.

Frames carry their samples as an arbitrary type: the buffer only moves them.
Times and loss rates are exact rationals.

What an operation can do is said once, in `push_cases` and `pop_cases`; every
invariant of the buffer is derived from these two.
-/

set_option autoImplicit false

namespace VoiceChat

/-- Maximum jitter buffer depth in frames. -/
def maxDepth : Nat := 4
/-- Initial jitter buffer depth in frames. -/
def initialDepth : Nat := 1
/-- Late packet threshold to increase the buffer (2%). -/
def increaseThreshold : ℚ := 2 / 100
/-- Late packet threshold to decrease the buffer (0.1%). -/
def decreaseThreshold : ℚ := 1 / 1000
/-- Seconds of low loss required before decreasing the buffer. -/
def decreaseHoldoffSecs : ℚ := 5

/-- A single frame stored in the jitter buffer. -/
structure JitterFrame (Pcm : Type) where
  seqNum : UInt16
  pcm : Pcm
  deriving DecidableEq

/-- Adaptive jitter buffer for a single peer. -/
structure JitterBuffer (Pcm : Type) where
  /-- Buffered frames, sorted by sequence number. -/
  frames : List (JitterFrame Pcm)
  /-- Current target depth in frames. -/
  targetDepth : Nat
  /-- Next expected sequence number for playout. -/
  nextPlayoutSeq : Option UInt16
  totalPackets : Nat
  latePackets : Nat
  /-- Time since the last depth decrease. -/
  timeSinceDecrease : ℚ
  deriving DecidableEq

namespace JitterBuffer

variable {Pcm : Type}

def new : JitterBuffer Pcm where
  frames := []
  targetDepth := initialDepth
  nextPlayoutSeq := none
  totalPackets := 0
  latePackets := 0
  timeSinceDecrease := 0

/-- The packet is older than the one playout expects. -/
def isLate (jb : JitterBuffer Pcm) (seqNum : UInt16) : Bool :=
  match jb.nextPlayoutSeq with
  | some next => seqNum - next > 0xFFFF / 2
  | none => false

/-- A frame with this sequence number is buffered. -/
def contains (jb : JitterBuffer Pcm) (seqNum : UInt16) : Bool :=
  jb.frames.any fun f => f.seqNum == seqNum

/-- The place of the first buffered frame that comes after the sequence number,
and the end of the buffer when there is none. -/
def insertPos (jb : JitterBuffer Pcm) (seqNum : UInt16) : Nat :=
  jb.frames.findIdx fun f => 0 < f.seqNum - seqNum && f.seqNum - seqNum < 0xFFFF / 2

/-- Push a decoded frame into the jitter buffer. -/
def push (jb : JitterBuffer Pcm) (seqNum : UInt16) (pcm : Pcm) : JitterBuffer Pcm :=
  let jb := { jb with totalPackets := jb.totalPackets + 1 }
  if jb.isLate seqNum then
    { jb with latePackets := jb.latePackets + 1 }
  else if jb.contains seqNum then
    jb
  else if jb.frames.length ≥ maxDepth * 2 then
    jb
  else
    { jb with frames := jb.frames.insertIdx (jb.insertPos seqNum) ⟨seqNum, pcm⟩ }

/-- The place of the frame with this sequence number. -/
def position (jb : JitterBuffer Pcm) (seqNum : UInt16) : Option Nat :=
  jb.frames.findIdx? fun f => f.seqNum == seqNum

/-- The sequence number the next `pop` looks for. Before playout has started it
is the first buffered one, once the target depth is reached. -/
def expected (jb : JitterBuffer Pcm) : Option UInt16 :=
  match jb.frames, jb.nextPlayoutSeq with
  | [], _ => none
  | _ :: _, some next => some next
  | first :: _, none =>
      if jb.frames.length < jb.targetDepth then none else some first.seqNum

/-- Pop the next frame for playout. `none` when the buffer is empty or has not
reached its target depth yet, and when the expected frame is missing. -/
def pop (jb : JitterBuffer Pcm) : Option Pcm × JitterBuffer Pcm :=
  match jb.expected with
  | none => (none, jb)
  | some expected =>
    match jb.position expected with
    | some idx =>
        (jb.frames[idx]?.map JitterFrame.pcm,
          { jb with frames := jb.frames.eraseIdx idx, nextPlayoutSeq := some (expected + 1) })
    | none =>
        -- the frame is missing: playout moves on and the caller conceals
        (none, { jb with nextPlayoutSeq := some (expected + 1) })

def resetStats (jb : JitterBuffer Pcm) : JitterBuffer Pcm :=
  { jb with totalPackets := 0, latePackets := 0 }

/-- Adapt the buffer depth to the loss rate seen since the last change. -/
def adapt (jb : JitterBuffer Pcm) (elapsedSecs : ℚ) : JitterBuffer Pcm :=
  let jb := { jb with timeSinceDecrease := jb.timeSinceDecrease + elapsedSecs }
  if jb.totalPackets < 100 then
    jb
  else
    let lossRate : ℚ := jb.latePackets / jb.totalPackets
    if lossRate > increaseThreshold ∧ jb.targetDepth < maxDepth then
      { jb with targetDepth := jb.targetDepth + 1 }.resetStats
    else if lossRate < decreaseThreshold ∧ jb.targetDepth > 1 ∧
        jb.timeSinceDecrease ≥ decreaseHoldoffSecs then
      { jb with targetDepth := jb.targetDepth - 1, timeSinceDecrease := 0 }.resetStats
    else
      jb

/-- Reset the buffer (e.g., on peer reconnect). -/
def reset (jb : JitterBuffer Pcm) : JitterBuffer Pcm :=
  { { jb with frames := [], nextPlayoutSeq := none, targetDepth := initialDepth }.resetStats with
    timeSinceDecrease := 0 }

/-! ## What the operations can do -/

/-- The buffer takes the frame in: it is neither late nor a duplicate, and there
is room. -/
def Accepts (jb : JitterBuffer Pcm) (seqNum : UInt16) : Prop :=
  jb.isLate seqNum = false ∧ jb.contains seqNum = false ∧ jb.frames.length < maxDepth * 2

instance (jb : JitterBuffer Pcm) (seqNum : UInt16) : Decidable (jb.Accepts seqNum) :=
  inferInstanceAs (Decidable (_ ∧ _ ∧ _))

theorem contains_eq_false {jb : JitterBuffer Pcm} {seqNum : UInt16} :
    jb.contains seqNum = false ↔ ∀ f ∈ jb.frames, f.seqNum ≠ seqNum := by
  simp [contains]

theorem insertPos_le (jb : JitterBuffer Pcm) (seqNum : UInt16) :
    jb.insertPos seqNum ≤ jb.frames.length :=
  List.findIdx_le_length

/-- **What `push` can do**: an accepted frame joins the buffered ones, any other
push leaves them as they are. Neither touches the playout position or the target
depth. -/
theorem push_cases (jb : JitterBuffer Pcm) (seqNum : UInt16) (pcm : Pcm) :
    (jb.push seqNum pcm).nextPlayoutSeq = jb.nextPlayoutSeq ∧
      (jb.push seqNum pcm).targetDepth = jb.targetDepth ∧
      ((jb.Accepts seqNum ∧
          (jb.push seqNum pcm).frames =
            jb.frames.insertIdx (jb.insertPos seqNum) ⟨seqNum, pcm⟩) ∨
        (¬ jb.Accepts seqNum ∧ (jb.push seqNum pcm).frames = jb.frames)) := by
  have late : ∀ total, JitterBuffer.isLate { jb with totalPackets := total } seqNum =
      jb.isLate seqNum := fun _ => rfl
  have dup : ∀ total, JitterBuffer.contains { jb with totalPackets := total } seqNum =
      jb.contains seqNum := fun _ => rfl
  have pos : ∀ total, JitterBuffer.insertPos { jb with totalPackets := total } seqNum =
      jb.insertPos seqNum := fun _ => rfl
  simp only [push, Accepts, late, dup, pos]
  split_ifs with isLate isDup isFull
  · exact ⟨rfl, rfl, Or.inr ⟨by simp [isLate], rfl⟩⟩
  · exact ⟨rfl, rfl, Or.inr ⟨by simp [isDup], rfl⟩⟩
  · exact ⟨rfl, rfl, Or.inr ⟨fun accepted => absurd accepted.2.2 (by simpa using isFull), rfl⟩⟩
  · exact ⟨rfl, rfl, Or.inl ⟨⟨by simpa using isLate, by simpa using isDup, by simpa using isFull⟩,
      rfl⟩⟩

@[simp] theorem push_nextPlayoutSeq (jb : JitterBuffer Pcm) (seqNum : UInt16) (pcm : Pcm) :
    (jb.push seqNum pcm).nextPlayoutSeq = jb.nextPlayoutSeq := (jb.push_cases seqNum pcm).1

/-- The statistics take every push in, and whether it was late; the other fields are
those of `push_cases`. -/
theorem push_eq (jb : JitterBuffer Pcm) (seqNum : UInt16) (pcm : Pcm) :
    jb.push seqNum pcm = { jb with
      frames := (jb.push seqNum pcm).frames
      totalPackets := jb.totalPackets + 1
      latePackets := jb.latePackets + if jb.isLate seqNum then 1 else 0 } := by
  have late : ∀ total, JitterBuffer.isLate { jb with totalPackets := total } seqNum =
      jb.isLate seqNum := fun _ => rfl
  simp only [push, late]
  split_ifs
  · rfl
  · rfl
  · rfl
  · rfl

theorem push_frames_of_accepts {jb : JitterBuffer Pcm} {seqNum : UInt16}
    (accepted : jb.Accepts seqNum) (pcm : Pcm) :
    (jb.push seqNum pcm).frames.Perm (⟨seqNum, pcm⟩ :: jb.frames) := by
  rcases (jb.push_cases seqNum pcm).2.2 with ⟨_, frames⟩ | ⟨refused, _⟩
  · rw [frames]
    exact List.perm_insertIdx _ _ (jb.insertPos_le seqNum)
  · exact absurd accepted refused

theorem push_frames_of_not_accepts {jb : JitterBuffer Pcm} {seqNum : UInt16}
    (refused : ¬ jb.Accepts seqNum) (pcm : Pcm) : (jb.push seqNum pcm).frames = jb.frames := by
  rcases (jb.push_cases seqNum pcm).2.2 with ⟨accepted, _⟩ | ⟨_, frames⟩
  · exact absurd accepted refused
  · exact frames

theorem mem_push_of_mem {jb : JitterBuffer Pcm} {f : JitterFrame Pcm} (member : f ∈ jb.frames)
    (seqNum : UInt16) (pcm : Pcm) : f ∈ (jb.push seqNum pcm).frames := by
  by_cases accepted : jb.Accepts seqNum
  · exact (push_frames_of_accepts accepted pcm).mem_iff.mpr (List.mem_cons_of_mem _ member)
  · rwa [push_frames_of_not_accepts accepted]

/-- A frame that is buffered after a push is the pushed one, or was buffered before. -/
theorem eq_or_mem_of_mem_push {jb : JitterBuffer Pcm} {seqNum : UInt16} {pcm : Pcm}
    {f : JitterFrame Pcm} (member : f ∈ (jb.push seqNum pcm).frames) :
    f = ⟨seqNum, pcm⟩ ∨ f ∈ jb.frames := by
  by_cases accepted : jb.Accepts seqNum
  · exact List.mem_cons.mp ((push_frames_of_accepts accepted pcm).mem_iff.mp member)
  · rw [push_frames_of_not_accepts accepted] at member
    exact Or.inr member

/-- After playout has started, a nonempty buffer expects the playout position. -/
theorem expected_of_started {jb : JitterBuffer Pcm} {next : UInt16}
    (started : jb.nextPlayoutSeq = some next) (nonempty : jb.frames ≠ []) :
    jb.expected = some next := by
  unfold expected
  rw [started]
  cases frames : jb.frames with
  | nil => exact absurd frames nonempty
  | cons first rest => rfl

/-- **What `pop` can do.** It does nothing, or it moves playout past the expected
sequence number, taking out the first frame that carries it when there is one. -/
theorem pop_cases (jb : JitterBuffer Pcm) :
    (jb.expected = none ∧ jb.pop = (none, jb)) ∨
      (∃ e before f after, jb.expected = some e ∧ jb.frames = before ++ f :: after ∧
        f.seqNum = e ∧ (∀ g ∈ before, g.seqNum ≠ e) ∧
        jb.pop = (some f.pcm,
          { jb with frames := before ++ after, nextPlayoutSeq := some (e + 1) })) ∨
      (∃ e, jb.expected = some e ∧ (∀ g ∈ jb.frames, g.seqNum ≠ e) ∧
        jb.pop = (none, { jb with nextPlayoutSeq := some (e + 1) })) := by
  cases expects : jb.expected with
  | none => exact Or.inl ⟨rfl, by simp [pop, expects]⟩
  | some e =>
    cases found : jb.position e with
    | none =>
        refine Or.inr (Or.inr ⟨e, rfl, ?_, by simp [pop, expects, found]⟩)
        simpa [position] using found
    | some idx =>
        obtain ⟨bound, here, earlier⟩ := List.findIdx?_eq_some_iff_getElem.mp found
        refine Or.inr (Or.inl ⟨e, jb.frames.take idx, jb.frames[idx], jb.frames.drop (idx + 1),
          rfl, ?_, by simpa using here, ?_, ?_⟩)
        · rw [← List.drop_eq_getElem_cons bound, List.take_append_drop]
        · intro g member
          obtain ⟨j, below, rfl⟩ := List.mem_iff_getElem.mp member
          rw [List.length_take] at below
          have := earlier j (by omega)
          simpa using this
        · simp [pop, expects, found, List.getElem?_eq_getElem bound,
            List.eraseIdx_eq_take_drop_succ]

/-- A pop only ever takes frames out. -/
theorem pop_frames_sublist (jb : JitterBuffer Pcm) : jb.pop.2.frames.Sublist jb.frames := by
  rcases jb.pop_cases with ⟨_, same⟩ | ⟨e, before, f, after, _, split, _, _, popped⟩ |
    ⟨e, _, _, missed⟩
  · rw [same]
  · rw [popped, split]
    exact (List.Sublist.refl before).append (List.sublist_cons_self f after)
  · rw [missed]

/-- `adapt` neither looks at the buffered frames nor at the playout position. -/
theorem adapt_with (jb : JitterBuffer Pcm) (elapsedSecs : ℚ) (frames : List (JitterFrame Pcm))
    (next : Option UInt16) :
    { jb with frames := frames, nextPlayoutSeq := next }.adapt elapsedSecs =
      { jb.adapt elapsedSecs with frames := frames, nextPlayoutSeq := next } := by
  unfold adapt
  dsimp only
  split_ifs
  · rfl
  · rfl
  · rfl
  · rfl

@[simp] theorem adapt_frames (jb : JitterBuffer Pcm) (elapsedSecs : ℚ) :
    (jb.adapt elapsedSecs).frames = jb.frames := by
  simp only [adapt, resetStats]
  split_ifs <;> rfl

@[simp] theorem adapt_nextPlayoutSeq (jb : JitterBuffer Pcm) (elapsedSecs : ℚ) :
    (jb.adapt elapsedSecs).nextPlayoutSeq = jb.nextPlayoutSeq := by
  simp only [adapt, resetStats]
  split_ifs <;> rfl

end JitterBuffer

/-! ## Runs -/

/-- What a session does to a peer's jitter buffer. -/
inductive JitterOp (Pcm : Type) where
  | push (seqNum : UInt16) (pcm : Pcm)
  | pop
  | adapt (elapsedSecs : ℚ)
  | reset
  deriving DecidableEq

/-- The jitter buffer as a machine. What comes out are the results of `pop`. -/
def jitterMachine (Pcm : Type) : Machine (JitterBuffer Pcm) (JitterOp Pcm) (Option Pcm) where
  step jb
    | .push seqNum pcm => (jb.push seqNum pcm, [])
    | .pop => (jb.pop.2, [jb.pop.1])
    | .adapt elapsedSecs => (jb.adapt elapsedSecs, [])
    | .reset => (jb.reset, [])

namespace JitterBuffer

variable {Pcm : Type}

/-- The state after a run of operations. -/
abbrev run (jb : JitterBuffer Pcm) (ops : List (JitterOp Pcm)) : JitterBuffer Pcm :=
  (jitterMachine Pcm).run jb ops

theorem run_append (jb : JitterBuffer Pcm) (first second : List (JitterOp Pcm)) :
    jb.run (first ++ second) = (jb.run first).run second :=
  (jitterMachine Pcm).run_append jb first second

/-- The results of the pops of a run, oldest first. -/
def popped (jb : JitterBuffer Pcm) (ops : List (JitterOp Pcm)) : List (Option Pcm) :=
  (jitterMachine Pcm).outputs jb ops

/-- No two buffered frames carry the same sequence number. -/
def NoDuplicates (jb : JitterBuffer Pcm) : Prop :=
  (jb.frames.map JitterFrame.seqNum).Nodup

theorem noDuplicates_step (jb : JitterBuffer Pcm) (op : JitterOp Pcm) (distinct : jb.NoDuplicates) :
    ((jitterMachine Pcm).step jb op).1.NoDuplicates := by
  cases op with
  | push seqNum pcm =>
      change (jb.push seqNum pcm).NoDuplicates
      by_cases accepted : jb.Accepts seqNum
      · have absent : ∀ f ∈ jb.frames, f.seqNum ≠ seqNum := contains_eq_false.mp accepted.2.1
        have perm := (push_frames_of_accepts accepted pcm).map JitterFrame.seqNum
        rw [NoDuplicates, perm.nodup_iff, List.map_cons, List.nodup_cons]
        exact ⟨by simpa using absent, distinct⟩
      · rwa [NoDuplicates, push_frames_of_not_accepts accepted]
  | pop =>
      change jb.pop.2.NoDuplicates
      exact distinct.sublist (jb.pop_frames_sublist.map _)
  | adapt elapsedSecs =>
      change (jb.adapt elapsedSecs).NoDuplicates
      rwa [NoDuplicates, adapt_frames]
  | reset => exact List.nodup_nil

/-- In every reachable state the buffered sequence numbers are distinct. -/
theorem noDuplicates_run (ops : List (JitterOp Pcm)) :
    ((new : JitterBuffer Pcm).run ops).NoDuplicates :=
  Machine.invariant NoDuplicates (fun jb op distinct _ => noDuplicates_step jb op distinct)
    List.nodup_nil ((jitterMachine Pcm).along_true _ ops)

/-- Once playout has started, a pop takes out the frames under the number it expects,
and returns the one there is. -/
theorem pop_of_started {jb : JitterBuffer Pcm} {next : UInt16} (distinct : jb.NoDuplicates)
    (started : jb.nextPlayoutSeq = some next) (nonempty : jb.frames ≠ []) :
    (∀ pcm, jb.pop.1 = some pcm ↔ ⟨next, pcm⟩ ∈ jb.frames) ∧
      jb.pop.2 = { jb with
        frames := jb.frames.filter fun f => f.seqNum != next
        nextPlayoutSeq := some (next + 1) } := by
  have expects := expected_of_started started nonempty
  rcases jb.pop_cases with ⟨idle, _⟩ | ⟨e, before, f, after, expects', split, here, early, popped⟩ |
    ⟨e, expects', missing, missed⟩
  · rw [expects] at idle
    cases idle
  · rw [expects] at expects'
    cases expects'
    rw [NoDuplicates, split, List.map_append, List.map_cons, List.nodup_middle,
      List.nodup_cons, List.mem_append, here] at distinct
    have late : ∀ g ∈ after, g.seqNum ≠ next := fun g member same =>
      distinct.1 (Or.inr (same ▸ List.mem_map_of_mem member))
    have kept : (before ++ f :: after).filter (fun f => f.seqNum != next) = before ++ after := by
      rw [List.filter_append, List.filter_cons_of_neg (by simp [here]),
        List.filter_eq_self.mpr fun g member => by simpa using early g member,
        List.filter_eq_self.mpr fun g member => by simpa using late g member]
    rw [popped, split, kept]
    refine ⟨fun pcm => ⟨fun returned => ?_, fun member => ?_⟩, rfl⟩
    · cases returned
      simp [← here]
    · rcases List.mem_append.mp member with inside | inside
      · exact absurd rfl (early _ inside)
      · rcases List.mem_cons.mp inside with same | inside
        · rw [← same]
        · exact absurd rfl (late _ inside)
  · rw [expects] at expects'
    cases expects'
    rw [missed, List.filter_eq_self.mpr fun g member => by simpa using missing g member]
    refine ⟨fun pcm => ⟨fun returned => ?_, fun member => ?_⟩, rfl⟩
    · cases returned
    · exact absurd rfl (missing _ member)

/-- Once playout has started, a pop moves it on and keeps the frames under other
numbers. -/
theorem mem_pop_of_started {jb : JitterBuffer Pcm} {next : UInt16} (distinct : jb.NoDuplicates)
    (started : jb.nextPlayoutSeq = some next) (nonempty : jb.frames ≠ []) :
    jb.pop.2.nextPlayoutSeq = some (next + 1) ∧
      ∀ f, f ∈ jb.pop.2.frames ↔ f ∈ jb.frames ∧ f.seqNum ≠ next := by
  rw [(pop_of_started distinct started nonempty).2]
  exact ⟨rfl, fun f => by rw [List.mem_filter, bne_iff_ne]⟩

theorem pop_of_empty {jb : JitterBuffer Pcm} (empty : jb.frames = []) : jb.pop = (none, jb) := by
  rw [pop, expected, empty]

end JitterBuffer

end VoiceChat
