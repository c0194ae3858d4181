import VoiceChat.Jitter

/-!
# The sequence number wraps unseen

The jitter buffer compares sequence numbers by their wrapped differences only.
Moving all of them around the circle by the same amount therefore commutes with
every operation (`shift_push`, `shift_pop`, `shift_adapt`), and a run with all
pushed numbers moved is the run itself with its sequence numbers moved
(`shift_run`): nothing special happens where the number crosses zero.
-/

set_option autoImplicit false

namespace VoiceChat

/-- The frame with its sequence number moved around the circle. -/
def JitterFrame.shift {Pcm : Type} (f : JitterFrame Pcm) (k : UInt16) : JitterFrame Pcm :=
  { f with seqNum := f.seqNum + k }

/-- The operation with the sequence number it pushes moved around the circle. -/
def JitterOp.shift {Pcm : Type} (k : UInt16) : JitterOp Pcm → JitterOp Pcm
  | .push seqNum pcm => .push (seqNum + k) pcm
  | .pop => .pop
  | .adapt elapsedSecs => .adapt elapsedSecs
  | .reset => .reset

namespace JitterBuffer

variable {Pcm : Type}

/-- The buffer with all its sequence numbers moved around the circle. -/
def shift (jb : JitterBuffer Pcm) (k : UInt16) : JitterBuffer Pcm :=
  { jb with
    frames := jb.frames.map (·.shift k)
    nextPlayoutSeq := jb.nextPlayoutSeq.map (· + k) }

/-! ## Each operation commutes with the shift -/

theorem shift_isLate (jb : JitterBuffer Pcm) (seqNum k : UInt16) :
    (jb.shift k).isLate (seqNum + k) = jb.isLate seqNum := by
  unfold isLate shift
  cases jb.nextPlayoutSeq with
  | none => rfl
  | some next =>
      change decide (seqNum + k - (next + k) > 0xFFFF / 2) = _
      rw [add_sub_add_right_eq_sub]

theorem shift_contains (jb : JitterBuffer Pcm) (seqNum k : UInt16) :
    (jb.shift k).contains (seqNum + k) = jb.contains seqNum := by
  unfold contains shift
  rw [List.any_map]
  congr 1
  funext f
  exact Bool.eq_iff_iff.mpr (by simp [JitterFrame.shift])

theorem shift_insertPos (jb : JitterBuffer Pcm) (seqNum k : UInt16) :
    (jb.shift k).insertPos (seqNum + k) = jb.insertPos seqNum := by
  unfold insertPos shift
  rw [List.findIdx_map]
  congr 1
  funext f
  change (decide (0 < f.seqNum + k - (seqNum + k)) &&
    decide (f.seqNum + k - (seqNum + k) < 0xFFFF / 2)) = _
  rw [add_sub_add_right_eq_sub]

theorem shift_position (jb : JitterBuffer Pcm) (seqNum k : UInt16) :
    (jb.shift k).position (seqNum + k) = jb.position seqNum := by
  unfold position shift
  rw [List.findIdx?_map]
  congr 1
  funext f
  exact Bool.eq_iff_iff.mpr (by simp [JitterFrame.shift])

theorem shift_expected (jb : JitterBuffer Pcm) (k : UInt16) :
    (jb.shift k).expected = jb.expected.map (· + k) := by
  unfold expected shift
  cases jb.frames with
  | nil => rfl
  | cons first rest =>
      cases jb.nextPlayoutSeq with
      | some next => rfl
      | none =>
          simp only [List.map_cons, Option.map_none, List.length_cons, List.length_map]
          split_ifs
          · rfl
          · rfl

theorem shift_push (jb : JitterBuffer Pcm) (seqNum : UInt16) (pcm : Pcm) (k : UInt16) :
    (jb.shift k).push (seqNum + k) pcm = (jb.push seqNum pcm).shift k := by
  let counted : JitterBuffer Pcm := { jb with totalPackets := jb.totalPackets + 1 }
  have late : JitterBuffer.isLate (counted.shift k) (seqNum + k) = counted.isLate seqNum :=
    shift_isLate counted seqNum k
  have dup : JitterBuffer.contains (counted.shift k) (seqNum + k) = counted.contains seqNum :=
    shift_contains counted seqNum k
  have pos : JitterBuffer.insertPos (counted.shift k) (seqNum + k) = counted.insertPos seqNum :=
    shift_insertPos counted seqNum k
  have size : (counted.shift k).frames.length = counted.frames.length := List.length_map _
  change (if (counted.shift k).isLate (seqNum + k) = true then _
    else if (counted.shift k).contains (seqNum + k) = true then _
    else if (counted.shift k).frames.length ≥ maxDepth * 2 then _
    else { counted.shift k with
      frames := (counted.shift k).frames.insertIdx ((counted.shift k).insertPos (seqNum + k))
        ⟨seqNum + k, pcm⟩ }) = JitterBuffer.shift (if counted.isLate seqNum = true then _
    else if counted.contains seqNum = true then _
    else if counted.frames.length ≥ maxDepth * 2 then _
    else { counted with
      frames := counted.frames.insertIdx (counted.insertPos seqNum) ⟨seqNum, pcm⟩ }) k
  rw [late, dup, pos, size]
  split_ifs
  · rfl
  · rfl
  · rfl
  · simp only [shift, List.map_insertIdx]
    rfl

theorem shift_pop (jb : JitterBuffer Pcm) (k : UInt16) :
    (jb.shift k).pop = (jb.pop.1, jb.pop.2.shift k) := by
  unfold pop
  rw [shift_expected]
  cases jb.expected with
  | none => rfl
  | some expected =>
      have turn : expected + k + 1 = expected + 1 + k := add_right_comm expected k 1
      simp only [Option.map_some, shift_position]
      cases jb.position expected with
      | none => simp only [shift, Option.map_some, turn]
      | some idx =>
          simp only [shift, Option.map_some, turn, List.getElem?_map, Option.map_map,
            List.eraseIdx_map]
          rfl

theorem shift_adapt (jb : JitterBuffer Pcm) (elapsedSecs : ℚ) (k : UInt16) :
    (jb.shift k).adapt elapsedSecs = (jb.adapt elapsedSecs).shift k := by
  have moved := adapt_with jb elapsedSecs (jb.frames.map (·.shift k))
    (jb.nextPlayoutSeq.map (· + k))
  rw [shift, shift, adapt_frames, adapt_nextPlayoutSeq]
  exact moved

theorem shift_step (jb : JitterBuffer Pcm) (op : JitterOp Pcm) (k : UInt16) :
    (jitterMachine Pcm).step (jb.shift k) (op.shift k) =
      (((jitterMachine Pcm).step jb op).1.shift k, ((jitterMachine Pcm).step jb op).2) := by
  cases op with
  | push seqNum pcm => exact congrArg (·, []) (shift_push jb seqNum pcm k)
  | pop =>
      change ((jb.shift k).pop.2, [(jb.shift k).pop.1]) = _
      rw [shift_pop]
      rfl
  | adapt elapsedSecs => exact congrArg (·, []) (shift_adapt jb elapsedSecs k)
  | reset => rfl

/-! ## Runs -/

/-- A run from a moved buffer, with moved pushes, is the run moved. -/
theorem shift_run (jb : JitterBuffer Pcm) (ops : List (JitterOp Pcm)) (k : UInt16) :
    (jb.shift k).run (ops.map (.shift k)) = (jb.run ops).shift k ∧
      (jb.shift k).popped (ops.map (.shift k)) = jb.popped ops := by
  have kept : ∀ jb jb' op, jb' = jb.shift k → True →
      ((jitterMachine Pcm).step jb' (op.shift k)).1 = ((jitterMachine Pcm).step jb op).1.shift k ∧
        ((jitterMachine Pcm).step jb op).2 = ((jitterMachine Pcm).step jb' (op.shift k)).2 := by
    intro jb jb' op related _
    rw [related, shift_step]
    exact ⟨rfl, rfl⟩
  have side := Machine.simulation (M := jitterMachine Pcm) (N := jitterMachine Pcm)
    (fun jb jb' => jb' = jb.shift k) (JitterOp.shift k) (A := fun _ => True)
    kept (rfl : jb.shift k = jb.shift k) (fun op (_ : op ∈ ops) => trivial)
  exact ⟨side.1, side.2.symm⟩

/-- **Wraparound is invisible.** In every run on a new buffer, moving all pushed
sequence numbers around the circle leaves the pop results, the packet counts and the
target depth as they are, and moves the buffered frames and the playout position
along. -/
theorem wraparound_invisible (ops : List (JitterOp Pcm)) (k : UInt16) :
    let jb := (new : JitterBuffer Pcm).run ops
    let moved := (new : JitterBuffer Pcm).run (ops.map (.shift k))
    popped new (ops.map (.shift k)) = popped new ops ∧
      moved.latePackets = jb.latePackets ∧ moved.totalPackets = jb.totalPackets ∧
      moved.targetDepth = jb.targetDepth ∧
      moved.frames = jb.frames.map (fun f => { f with seqNum := f.seqNum + k }) ∧
      moved.nextPlayoutSeq = jb.nextPlayoutSeq.map (· + k) := by
  obtain ⟨state, results⟩ := shift_run (new : JitterBuffer Pcm) ops k
  have start : (new : JitterBuffer Pcm).shift k = new := rfl
  rw [start] at state results
  intro jb moved
  have same : moved = jb.shift k := state
  rw [same]
  exact ⟨results, rfl, rfl, rfl, rfl, rfl⟩

/-- Two frames that meet the wrap between them come out in order. -/
example : popped new ([.push 5 50, .push 6 60, .pop, .pop].map (.shift 65530)) =
    [some 50, some 60] := by decide +kernel

end JitterBuffer

end VoiceChat
