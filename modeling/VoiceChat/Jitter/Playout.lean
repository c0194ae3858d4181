import VoiceChat.Jitter

/-!
# Every accepted frame is played once, in its turn

Once playout has started it moves one sequence number per `pop` for as long as
the buffer is not empty. An accepted frame `d` numbers ahead keeps the buffer
nonempty, so the first `d` pops after it look for other numbers, the frame stays
buffered through them, and the next pop returns it (`frame_kept`,
`pop_returns_frame`).

What a pop returns is the last push the buffer accepted under the number the pop
expects (`pop_returns_last_accepted`): an accepted push is remembered exactly
while its frame is buffered, because a buffered number is not accepted again.
-/

set_option autoImplicit false

namespace VoiceChat

namespace JitterOp

variable {Pcm : Type}

def isPop : JitterOp Pcm → Bool
  | .pop => true
  | _ => false

def isReset : JitterOp Pcm → Bool
  | .reset => true
  | _ => false

/-- How many pops a run contains. -/
def pops (ops : List (JitterOp Pcm)) : Nat := ops.countP isPop

@[simp] theorem pops_nil : pops ([] : List (JitterOp Pcm)) = 0 := rfl

@[simp] theorem pops_cons_pop (rest : List (JitterOp Pcm)) :
    pops (.pop :: rest) = pops rest + 1 :=
  List.countP_cons_of_pos rfl

theorem pops_cons_of_not_pop {op : JitterOp Pcm} (other : op.isPop = false)
    (rest : List (JitterOp Pcm)) : pops (op :: rest) = pops rest := by
  simp [pops, other]

end JitterOp

namespace JitterBuffer

open SerialNumber JitterOp

variable {Pcm : Type}

/-! ## The frame waits for its turn -/

/-- A pop that looks for another number leaves the frame in the buffer and moves
playout on. -/
theorem mem_pop_of_ne {jb : JitterBuffer Pcm} {next : UInt16} {f : JitterFrame Pcm}
    (started : jb.nextPlayoutSeq = some next) (member : f ∈ jb.frames)
    (different : f.seqNum ≠ next) :
    f ∈ jb.pop.2.frames ∧ jb.pop.2.nextPlayoutSeq = some (next + 1) := by
  have expects := expected_of_started started (List.ne_nil_of_mem member)
  rcases jb.pop_cases with ⟨idle, _⟩ | ⟨e, before, g, after, expects', split, here, _, popped⟩ |
    ⟨e, expects', _, missed⟩
  · rw [expects] at idle
    cases idle
  · rw [expects] at expects'
    cases expects'
    rw [popped]
    refine ⟨?_, rfl⟩
    rw [split, List.mem_append, List.mem_cons] at member
    rcases member with early | rfl | late
    · exact List.mem_append_left _ early
    · exact absurd here different
    · exact List.mem_append_right _ late
  · rw [expects] at expects'
    cases expects'
    rw [missed]
    exact ⟨member, rfl⟩

/-- **The frame is kept until its turn**: through any run without a reset and
with at most as many pops as the frame lies ahead. -/
theorem frame_kept {f : JitterFrame Pcm} (ops : List (JitterOp Pcm)) :
    ∀ (jb : JitterBuffer Pcm) {next : UInt16}, jb.nextPlayoutSeq = some next → f ∈ jb.frames →
      (∀ op ∈ ops, op.isReset = false) → pops ops ≤ ahead next f.seqNum →
        f ∈ (jb.run ops).frames ∧
          (jb.run ops).nextPlayoutSeq = some (next + UInt16.ofNat (pops ops)) := by
  induction ops with
  | nil =>
      intro jb next started member _ _
      exact ⟨member, by simpa using started⟩
  | cons op rest ih =>
      intro jb next started member noReset turns
      have noResetRest : ∀ op ∈ rest, op.isReset = false :=
        fun op later => noReset op (List.mem_cons_of_mem _ later)
      cases op with
      | push seqNum pcm =>
          rw [pops_cons_of_not_pop rfl] at turns ⊢
          exact ih (jb.push seqNum pcm) ((push_nextPlayoutSeq ..).trans started)
            (mem_push_of_mem member seqNum pcm) noResetRest turns
      | pop =>
          rw [pops_cons_pop] at turns ⊢
          have different : f.seqNum ≠ next := by
            rintro rfl
            simp at turns
          obtain ⟨kept, moved⟩ := mem_pop_of_ne started member different
          have shorter := ahead_add_one different
          rw [← add_one_add_ofNat]
          exact ih jb.pop.2 moved kept noResetRest (by omega)
      | adapt elapsedSecs =>
          rw [pops_cons_of_not_pop rfl] at turns ⊢
          exact ih (jb.adapt elapsedSecs) ((adapt_nextPlayoutSeq ..).trans started)
            (by rwa [adapt_frames]) noResetRest turns
      | reset => exact absurd (noReset .reset (List.mem_cons_self ..)) (by simp [isReset])

/-- A pop that returns samples takes them from the buffered frame it expects. -/
theorem pop_eq_some {jb : JitterBuffer Pcm} {pcm : Pcm} (returned : jb.pop.1 = some pcm) :
    ∃ f ∈ jb.frames, jb.expected = some f.seqNum ∧ f.pcm = pcm := by
  rcases jb.pop_cases with ⟨_, same⟩ | ⟨e, before, f, after, expects, split, here, _, popped⟩ |
    ⟨e, _, _, missed⟩
  · rw [same] at returned
    cases returned
  · rw [popped] at returned
    cases returned
    exact ⟨f, by simp [split], by rw [expects, here], rfl⟩
  · rw [missed] at returned
    cases returned

/-- **The frame whose turn it is comes out.** -/
theorem pop_returns_frame {jb : JitterBuffer Pcm} {f : JitterFrame Pcm}
    (distinct : jb.NoDuplicates) (turn : jb.nextPlayoutSeq = some f.seqNum)
    (member : f ∈ jb.frames) : jb.pop.1 = some f.pcm := by
  have returns := (pop_of_started distinct turn (List.ne_nil_of_mem member)).1
  exact (returns f.pcm).mpr member

/-! ## What comes out is what was last accepted -/

/-- The accepted pushes of one operation: the push itself when the buffer takes
it in. -/
def accepted (jb : JitterBuffer Pcm) : JitterOp Pcm → List (UInt16 × Pcm)
  | .push seqNum pcm => if jb.Accepts seqNum then [(seqNum, pcm)] else []
  | .pop => []
  | .adapt _ => []
  | .reset => []

/-- The accepted pushes of a run, oldest first. -/
def acceptedPushes (jb : JitterBuffer Pcm) (ops : List (JitterOp Pcm)) : List (UInt16 × Pcm) :=
  ((jitterMachine Pcm).observe accepted).outputs jb ops

/-- The samples of the most recent push under a sequence number. -/
def lastPush (log : List (UInt16 × Pcm)) (seqNum : UInt16) : Option Pcm :=
  (log.reverse.find? fun entry => entry.1 == seqNum).map Prod.snd

theorem lastPush_append_self (log : List (UInt16 × Pcm)) (seqNum : UInt16) (pcm : Pcm) :
    lastPush (log ++ [(seqNum, pcm)]) seqNum = some pcm := by
  simp [lastPush]

theorem lastPush_append_of_ne (log : List (UInt16 × Pcm)) {seqNum other : UInt16} (pcm : Pcm)
    (different : other ≠ seqNum) :
    lastPush (log ++ [(other, pcm)]) seqNum = lastPush log seqNum := by
  simp [lastPush, different]

/-- Every buffered frame is the most recent accepted push under its number. -/
def Remembers (jb : JitterBuffer Pcm) (log : List (UInt16 × Pcm)) : Prop :=
  ∀ f ∈ jb.frames, lastPush log f.seqNum = some f.pcm

theorem remembers_step (jb : JitterBuffer Pcm) (log : List (UInt16 × Pcm)) (op : JitterOp Pcm)
    (remembers : jb.Remembers log) :
    ((jitterMachine Pcm).step jb op).1.Remembers (log ++ jb.accepted op) := by
  cases op with
  | push seqNum pcm =>
      intro f member
      change f ∈ (jb.push seqNum pcm).frames at member
      by_cases taken : jb.Accepts seqNum
      · rw [accepted, if_pos taken]
        rcases List.mem_cons.mp ((push_frames_of_accepts taken pcm).mem_iff.mp member) with
          rfl | older
        · exact lastPush_append_self ..
        · have different := contains_eq_false.mp taken.2.1 f older
          rw [lastPush_append_of_ne _ _ different.symm]
          exact remembers f older
      · rw [push_frames_of_not_accepts taken] at member
        rw [accepted, if_neg taken, List.append_nil]
        exact remembers f member
  | pop =>
      intro f member
      rw [accepted, List.append_nil]
      exact remembers f (jb.pop_frames_sublist.subset member)
  | adapt elapsedSecs =>
      intro f member
      rw [accepted, List.append_nil]
      exact remembers f (by rwa [← adapt_frames jb elapsedSecs])
  | reset =>
      intro f member
      exact absurd member (List.not_mem_nil)

/-- In every reachable state the buffer remembers the accepted pushes. -/
theorem remembers_run (ops : List (JitterOp Pcm)) :
    ((new : JitterBuffer Pcm).run ops).Remembers (acceptedPushes new ops) := by
  have start : (new : JitterBuffer Pcm).Remembers [] := fun f member => absurd member (by simp [new])
  have := Machine.invariant_outputs (M := (jitterMachine Pcm).observe accepted) Remembers
    (fun jb log op remembers _ => remembers_step jb log op remembers) start
    (Machine.along_true _ new ops)
  rwa [Machine.run_observe, List.nil_append] at this

/-- **A pop returns the most recent accepted push** under the sequence number it
expects, in every reachable state. -/
theorem pop_returns_last_accepted (ops : List (JitterOp Pcm)) {expects : UInt16} {pcm : Pcm}
    (looksFor : ((new : JitterBuffer Pcm).run ops).expected = some expects)
    (returned : ((new : JitterBuffer Pcm).run ops).pop.1 = some pcm) :
    lastPush (acceptedPushes new ops) expects = some pcm := by
  obtain ⟨f, member, expects', samples⟩ := pop_eq_some returned
  rw [looksFor] at expects'
  cases expects'
  rw [← samples]
  exact remembers_run ops f member

/-! ## Exactly once, in order, at a fixed time -/

/-- **Exactly-once, in-order, fixed-time playout.** From any reachable state in
which playout has started, a push within the accepted window, under a number not
buffered and with room for it, is returned by the pop that is as many turns later
as the frame lies ahead, stays buffered until then, and none of the pops in
between returns it: each looks for another number. Every pop returns the most
recent accepted push under the number it expects. -/
theorem push_played_in_turn (history later : List (JitterOp Pcm)) (next seqNum : UInt16)
    (pcm : Pcm) (started : ((new : JitterBuffer Pcm).run history).nextPlayoutSeq = some next)
    (inWindow : ahead next seqNum ≤ 32767)
    (absent : ∀ f ∈ ((new : JitterBuffer Pcm).run history).frames, f.seqNum ≠ seqNum)
    (room : ((new : JitterBuffer Pcm).run history).frames.length < 2 * maxDepth)
    (noReset : ∀ op ∈ later, op.isReset = false) :
    let ops := history ++ .push seqNum pcm :: later
    let jb := (new : JitterBuffer Pcm).run ops
    (pops later ≤ ahead next seqNum → ⟨seqNum, pcm⟩ ∈ jb.frames) ∧
      (pops later < ahead next seqNum → ∀ other, jb.pop.1 = some other →
        ∃ f ∈ jb.frames, f.pcm = other ∧ f.seqNum = next + UInt16.ofNat (pops later) ∧
          f.seqNum ≠ seqNum) ∧
      (pops later = ahead next seqNum → jb.pop.1 = some pcm) ∧
      (∀ expects other, jb.expected = some expects → jb.pop.1 = some other →
        lastPush (acceptedPushes new ops) expects = some other) := by
  intro ops jb
  have accepts : ((new : JitterBuffer Pcm).run history).Accepts seqNum := by
    refine ⟨?_, contains_eq_false.mpr absent, by omega⟩
    rw [isLate, started, decide_eq_false_iff_not]
    intro old
    have : (32767 : UInt16).toNat < (seqNum - next).toNat := UInt16.lt_iff_toNat_lt.mp old
    exact absurd inWindow (Nat.not_le.mpr this)
  have unfolded : jb = (((new : JitterBuffer Pcm).run history).push seqNum pcm).run later :=
    run_append new history (.push seqNum pcm :: later)
  have pushed : (⟨seqNum, pcm⟩ : JitterFrame Pcm) ∈
      (((new : JitterBuffer Pcm).run history).push seqNum pcm).frames :=
    (push_frames_of_accepts accepts pcm).mem_iff.mpr (List.mem_cons_self ..)
  have kept := frame_kept later _ ((push_nextPlayoutSeq ..).trans started) pushed noReset
  rw [← unfolded] at kept
  refine ⟨fun turns => (kept turns).1, ?_, ?_, ?_⟩
  · intro turns other returned
    obtain ⟨f, member, expects, samples⟩ := pop_eq_some returned
    obtain ⟨_, position⟩ := kept (Nat.le_of_lt turns)
    rw [expected_of_started position (List.ne_nil_of_mem member), Option.some.injEq] at expects
    refine ⟨f, member, samples, expects.symm, ?_⟩
    rw [← expects]
    intro same
    have bound := ahead_lt next seqNum
    have distance := ahead_add_ofNat next (d := pops later) (by omega)
    rw [same] at distance
    omega
  · intro turns
    obtain ⟨member, position⟩ := kept (Nat.le_of_eq turns)
    have distinct : jb.NoDuplicates := noDuplicates_run ops
    rw [turns, ← eq_add_ahead] at position
    exact pop_returns_frame distinct position member
  · intro expects other looksFor returned
    exact pop_returns_last_accepted ops looksFor returned

/-- The frame pushed two ahead of playout comes out with the third pop, after a
lost frame and a frame pushed later. -/
theorem push_played_in_turn_two_ahead :
    ((new : JitterBuffer Nat).run
      ([.push 65535 70, .pop] ++ .push 2 72 :: [.pop, .push 1 71, .pop])).pop.1 = some 72 :=
  (push_played_in_turn [.push 65535 70, .pop] [.pop, .push 1 71, .pop] 0 2 72
    (by decide +kernel) (by decide +kernel) (by decide +kernel) (by decide +kernel)
    (by decide +kernel)).2.2.1 (by decide +kernel)

end JitterBuffer

end VoiceChat
