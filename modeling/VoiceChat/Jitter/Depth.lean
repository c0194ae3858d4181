import VoiceChat.Jitter.Reordering

/-!
# When the target depth governs playout

The target depth is looked at before playout has started, and not again: a pop from a
buffer that ran empty waits for the next frame only. As long as playout has not
started, no frame is returned before the target depth was reached
(`pop_of_idle`). After an underrun the first frame that is taken in ends the wait,
whatever the target depth is by then.

`Refills` says of a step that it takes no frame into such a buffer unless the target
depth is one, and `depth_governs_iff` that this is all there is: it decides whether
the depth is reached between every empty buffer and the next frame that is returned.
-/

set_option autoImplicit false

namespace VoiceChat

namespace JitterBuffer

open SerialNumber

variable {Pcm : Type}

/-- The target depth is reached. -/
def Filled (jb : JitterBuffer Pcm) : Prop := jb.targetDepth ≤ jb.frames.length

/-- The depth governs a run: between an empty buffer and a frame that is returned, the
target depth of that moment was reached. -/
def Governed (jb : JitterBuffer Pcm) (ops : List (JitterOp Pcm)) : Prop :=
  ∀ before during, before ++ during ++ [.pop] <+: ops → (jb.run before).frames = [] →
    (jb.run (before ++ during)).pop.1.isSome →
    ∃ part, part <+: during ∧ (jb.run (before ++ part)).Filled

/-- A step takes no frame into a buffer that ran empty, unless one frame is all the
target depth asks for. -/
def Refills (jb : JitterBuffer Pcm) : JitterOp Pcm → Prop
  | .push seqNum _ => jb.frames = [] → jb.nextPlayoutSeq ≠ none → jb.Accepts seqNum →
      jb.targetDepth ≤ 1
  | _ => True

/-! ## Where the depth governs -/

/-- Playout has not started, or nothing is buffered. -/
def Idle (jb : JitterBuffer Pcm) : Prop := jb.nextPlayoutSeq = none ∨ jb.frames = []

/-- Below the target depth, an idle buffer returns nothing and stays as it is. -/
theorem pop_of_idle {jb : JitterBuffer Pcm} (idle : jb.Idle) (low : ¬ jb.Filled) :
    jb.pop = (none, jb) := by
  by_cases empty : jb.frames = []
  · exact pop_of_empty empty
  · have waiting := idle.resolve_right empty
    have short : jb.frames.length < jb.targetDepth := Nat.lt_of_not_le low
    have expects : jb.expected = none := by
      unfold expected
      rw [waiting]
      cases frames : jb.frames with
      | nil => rfl
      | cons first rest =>
          rw [frames] at short
          exact if_pos short
    rw [pop, expects]

/-- An idle buffer stays idle until the target depth is reached. -/
theorem idle_step {jb : JitterBuffer Pcm} {op : JitterOp Pcm} (idle : jb.Idle)
    (low : ¬ jb.Filled) (refills : jb.Refills op) :
    ((jitterMachine Pcm).step jb op).1.Idle ∨ ((jitterMachine Pcm).step jb op).1.Filled := by
  cases op with
  | push seqNum pcm =>
      change (jb.push seqNum pcm).Idle ∨ (jb.push seqNum pcm).Filled
      by_cases waiting : jb.nextPlayoutSeq = none
      · exact Or.inl (Or.inl (by rw [push_nextPlayoutSeq, waiting]))
      · have empty := idle.resolve_left waiting
        by_cases accepts : jb.Accepts seqNum
        · have depth := refills empty waiting accepts
          have length := (push_frames_of_accepts accepts pcm).length_eq
          rw [empty] at length
          refine Or.inr ?_
          rw [Filled, (jb.push_cases seqNum pcm).2.1, length]
          exact depth
        · exact Or.inl (Or.inr (by rw [push_frames_of_not_accepts accepts, empty]))
  | pop =>
      change jb.pop.2.Idle ∨ jb.pop.2.Filled
      rw [pop_of_idle idle low]
      exact Or.inl idle
  | adapt elapsedSecs =>
      change (jb.adapt elapsedSecs).Idle ∨ (jb.adapt elapsedSecs).Filled
      rw [Idle, adapt_nextPlayoutSeq, adapt_frames]
      exact Or.inl idle
  | reset => exact Or.inl (Or.inl rfl)

/-- **The depth governs** every run in which no frame is taken into a buffer that ran
empty while the target depth is above one. -/
theorem governed_of_refills {jb : JitterBuffer Pcm} {ops : List (JitterOp Pcm)}
    (refills : (jitterMachine Pcm).Along Refills jb ops) : jb.Governed ops := by
  intro before during inside empty returned
  have admitted := Machine.along_prefix inside refills
  rw [List.append_assoc, Machine.along_append, Machine.along_append] at admitted
  rw [run_append] at returned
  rcases Machine.until_reached Idle Filled (fun _ _ => idle_step) (Or.inr empty)
    admitted.2.1 with idle | ⟨part, early, filled⟩
  · by_cases filled : ((jb.run before).run during).Filled
    · exact ⟨during, List.prefix_rfl, by rwa [run_append]⟩
    · rw [pop_of_idle idle filled] at returned
      cases returned
  · exact ⟨part, early, by rwa [run_append]⟩

/-! ## Where it does not -/

/-- Pops move playout towards the only frame that is buffered, and leave all else. -/
theorem run_pops_of_alone {jb : JitterBuffer Pcm} {f : JitterFrame Pcm} {next : UInt16}
    (alone : jb.frames = [f]) (started : jb.nextPlayoutSeq = some next) {k : ℕ}
    (early : k ≤ ahead next f.seqNum) :
    jb.run (List.replicate k .pop) =
      { jb with nextPlayoutSeq := some (next + UInt16.ofNat k) } := by
  induction k generalizing jb next with
  | zero =>
      rw [show next + UInt16.ofNat 0 = next from add_zero next, ← started]
      rfl
  | succ k ih =>
      have different : f.seqNum ≠ next := fun same => by
        rw [same, ahead_self] at early
        omega
      have distinct : jb.NoDuplicates := by
        rw [NoDuplicates, alone]
        exact List.nodup_singleton _
      have popped := (pop_of_started distinct started (by simp [alone])).2
      rw [alone, List.filter_cons_of_pos (by simpa using different), List.filter_nil, ← alone]
        at popped
      have distance := ahead_add_one different
      have alone' : jb.pop.2.frames = [f] := by rw [popped, alone]
      have started' : jb.pop.2.nextPlayoutSeq = some (next + 1) := by rw [popped]
      have rest := ih alone' started' (by omega)
      rw [add_one_add_ofNat] at rest
      rw [List.replicate_succ]
      refine rest.trans ?_
      rw [popped]

/-- A frame that is taken into a buffer that ran empty is alone in it, and the pops that
follow pass the gap before it. -/
theorem run_underrun {jb : JitterBuffer Pcm} {seqNum next : UInt16} (pcm : Pcm)
    (empty : jb.frames = []) (started : jb.nextPlayoutSeq = some next)
    (accepts : jb.Accepts seqNum) : (jb.push seqNum pcm).frames = [⟨seqNum, pcm⟩] ∧
      ∀ k, k ≤ ahead next seqNum → jb.run (.push seqNum pcm :: List.replicate k .pop) =
        { jb.push seqNum pcm with nextPlayoutSeq := some (next + UInt16.ofNat k) } := by
  have alone : (jb.push seqNum pcm).frames = [⟨seqNum, pcm⟩] := by
    have perm := push_frames_of_accepts accepts pcm
    rw [empty] at perm
    exact List.perm_singleton.mp perm
  have position : (jb.push seqNum pcm).nextPlayoutSeq = some next := by
    rw [(jb.push_cases seqNum pcm).1, started]
  exact ⟨alone, fun k early => run_pops_of_alone alone position early⟩

/-- A frame that is taken into a buffer that ran empty is returned, whatever the target
depth. -/
theorem not_governed_of_underrun {jb : JitterBuffer Pcm} {before : List (JitterOp Pcm)}
    {seqNum : UInt16} (pcm : Pcm) (empty : (jb.run before).frames = [])
    (started : (jb.run before).nextPlayoutSeq ≠ none) (accepts : (jb.run before).Accepts seqNum)
    (deep : 1 < (jb.run before).targetDepth) :
    ∃ m, ¬ jb.Governed (before ++ [.push seqNum pcm] ++ List.replicate m .pop) := by
  obtain ⟨next, started⟩ := Option.ne_none_iff_exists'.mp started
  obtain ⟨alone, pops⟩ := run_underrun pcm empty started accepts
  let during := JitterOp.push seqNum pcm :: List.replicate (ahead next seqNum) .pop
  have whole : before ++ during ++ [.pop] <+:
      before ++ [.push seqNum pcm] ++ List.replicate (ahead next seqNum + 1) .pop := by
    rw [List.replicate_succ', List.append_assoc, List.append_assoc]
    exact List.prefix_rfl
  have returned : (jb.run (before ++ during)).pop.1 = some pcm := by
    rw [run_append, pops _ le_rfl, ← eq_add_ahead]
    refine ((pop_of_started ?_ rfl (by simp [alone])).1 pcm).mpr (by simp [alone])
    rw [NoDuplicates, alone]
    exact List.nodup_singleton _
  refine ⟨ahead next seqNum + 1, fun governed => ?_⟩
  obtain ⟨part, inside, filled⟩ := governed before during whole empty
    (Option.isSome_of_eq_some returned)
  rcases List.prefix_cons_iff.mp inside with rfl | ⟨rest, rfl, inside'⟩
  · rw [List.append_nil, Filled, empty] at filled
    exact absurd filled (by simp; omega)
  · obtain ⟨k, early, rfl⟩ : ∃ k, k ≤ ahead next seqNum ∧ rest = List.replicate k .pop := by
      have := List.prefix_iff_eq_take.mp inside'
      rw [List.take_replicate] at this
      exact ⟨_, min_le_right .., this⟩
    rw [run_append, pops k early, Filled, ((jb.run before).push_cases seqNum pcm).2.1,
      alone] at filled
    exact absurd deep (Nat.not_lt.mpr filled)

/-- **The depth governs exactly** the runs in which no frame is taken into a buffer that
ran empty while the target depth is above one: then, and only then, at every point of
the run and however often the caller pops from there on, a frame is returned only after
the target depth was reached. -/
theorem depth_governs_iff (ops : List (JitterOp Pcm)) :
    (∀ done, done <+: ops → ∀ m,
      (new : JitterBuffer Pcm).Governed (done ++ List.replicate m .pop)) ↔
      (jitterMachine Pcm).Along Refills new ops := by
  constructor
  · intro governed
    refine Machine.along_of_prefix fun before op inside => ?_
    cases op with
    | push seqNum pcm =>
        intro empty started accepts
        by_contra deep
        obtain ⟨m, fails⟩ := not_governed_of_underrun pcm empty started accepts
          (Nat.lt_of_not_le deep)
        exact fails (governed _ inside m)
    | pop => trivial
    | adapt elapsedSecs => trivial
    | reset => trivial
  · intro refills done inside m
    refine governed_of_refills ((Machine.along_append ..).mpr
      ⟨Machine.along_prefix inside refills, Machine.along_of_forall fun jb op member => ?_⟩)
    rw [List.eq_of_mem_replicate member]
    trivial

/-- A run that raises the target depth to two, and runs empty. -/
def raised : List (JitterOp ℕ) :=
  [.push 0 0, .pop] ++ List.replicate 99 (.push 0 0) ++ [.adapt 1]

/-- After an underrun one frame is returned although the target depth is two. -/
theorem depth_ignored_after_underrun :
    ¬ (new : JitterBuffer ℕ).Governed (raised ++ [.push 1 1] ++ [.pop]) := by
  intro governed
  obtain ⟨part, inside, filled⟩ := governed raised [.push 1 1] List.prefix_rfl
    (by decide +kernel) (by decide +kernel)
  rcases List.prefix_cons_iff.mp inside with rfl | ⟨rest, rfl, inside'⟩
  · revert filled
    unfold Filled
    decide +kernel
  · rw [List.prefix_nil.mp inside'] at filled
    revert filled
    unfold Filled
    decide +kernel

end JitterBuffer

end VoiceChat
