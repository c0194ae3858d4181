import VoiceChat.Jitter.Playout

/-!
# The order of pushes does not matter

Between two pops the network may deliver packets in any order. A batch of pushes
under fresh numbers, for which there is room, leaves the same frames behind in
whatever order it comes (`run_pushes`). Before playout has started the buffer is
also in the same order: the insertion keeps it sorted as long as everything lies
in one window (`ordered_run`). Once playout has started a pop depends on the set
of frames only.

`Alike` says what two such buffers share. It is kept by every operation that is
not a reset, with the same pop results (`Alike.step`), so two orders of a batch
can not be told apart by any later run (`batch_order_unseen`).
-/

set_option autoImplicit false

namespace VoiceChat

namespace JitterBuffer

open SerialNumber

variable {Pcm : Type}

/-! ## Inserting in order -/

/-- Inserting before the first element that comes after keeps a list in order. -/
theorem pairwise_insertIdx_findIdx {α : Type*} {r : α → α → Prop} {p : α → Bool} {x : α}
    (trans : ∀ y z, p y = true → r x y → r y z → r x z) {l : List α} (sorted : l.Pairwise r)
    (before : ∀ y ∈ l, p y = false → r y x) (after : ∀ y ∈ l, p y = true → r x y) :
    (l.insertIdx (l.findIdx p) x).Pairwise r := by
  induction l with
  | nil => exact List.pairwise_singleton r x
  | cons y ys ih =>
      obtain ⟨first, rest⟩ := List.pairwise_cons.mp sorted
      rw [List.findIdx_cons]
      cases here : p y with
      | true =>
          have less := after y List.mem_cons_self here
          refine List.pairwise_cons.mpr ⟨fun z member => ?_, sorted⟩
          rcases List.mem_cons.mp member with rfl | later
          · exact less
          · exact trans y z here less (first z later)
      | false =>
          refine List.pairwise_cons.mpr ⟨fun z member => ?_, ?_⟩
          · rcases List.eq_or_mem_of_mem_insertIdx member with rfl | later
            · exact before y List.mem_cons_self here
            · exact first z later
          · exact ih rest (fun z member => before z (List.mem_cons_of_mem y member))
              fun z member => after z (List.mem_cons_of_mem y member)

/-- The buffered frames lie within a window of 32766 numbers from a number on. -/
def Within (jb : JitterBuffer Pcm) (start : UInt16) : Prop :=
  ∀ f ∈ jb.frames, ahead start f.seqNum ≤ 32766

/-- The buffered frames are in order of their distances from a number. -/
def OrderedFrom (jb : JitterBuffer Pcm) (start : UInt16) : Prop :=
  jb.frames.Pairwise fun f g => ahead start f.seqNum < ahead start g.seqNum

/-- Within a window, the comparison that `push` makes is that of the distances. -/
theorem comesAfter_iff {start seqNum other : UInt16} (near : ahead start seqNum ≤ 32766)
    (near' : ahead start other ≤ 32766) :
    (0 < other - seqNum && other - seqNum < 0xFFFF / 2) = true ↔
      ahead start seqNum < ahead start other := by
  have distance : (other - seqNum).toNat = ahead seqNum other := rfl
  have total := ahead_add_ahead start seqNum other
  have bound := ahead_lt seqNum other
  rw [Bool.and_eq_true, decide_eq_true_eq, decide_eq_true_eq, UInt16.lt_iff_toNat_lt,
    UInt16.lt_iff_toNat_lt, distance]
  change 0 < _ ∧ _ < 32767 ↔ _
  omega

/-- An accepted push keeps a window in order. -/
theorem OrderedFrom.push {jb : JitterBuffer Pcm} {start seqNum : UInt16}
    (ordered : jb.OrderedFrom start) (within : jb.Within start)
    (near : ahead start seqNum ≤ 32766) (pcm : Pcm) :
    (jb.push seqNum pcm).OrderedFrom start := by
  rcases (jb.push_cases seqNum pcm).2.2 with ⟨accepts, frames⟩ | ⟨_, frames⟩
  · rw [OrderedFrom, frames]
    refine pairwise_insertIdx_findIdx
      (r := fun f g : JitterFrame Pcm => ahead start f.seqNum < ahead start g.seqNum)
      (fun _ _ _ => Nat.lt_trans) ordered ?_ ?_
    · intro f member not
      have different := contains_eq_false.mp accepts.2.1 f member
      have apart : ahead start f.seqNum ≠ ahead start seqNum := fun same =>
        different (ahead_inj.mp same)
      have least : ¬ ahead start seqNum < ahead start f.seqNum := fun less => by
        rw [(comesAfter_iff near (within f member)).mpr less] at not
        cases not
      change ahead start f.seqNum < ahead start seqNum
      omega
    · exact fun f member comes => (comesAfter_iff near (within f member)).mp comes
  · rwa [OrderedFrom, frames]

/-- Before playout has started, whatever lies within a window is in order. -/
def Ordered (jb : JitterBuffer Pcm) : Prop :=
  jb.nextPlayoutSeq = none → ∀ start, jb.Within start → jb.OrderedFrom start

theorem ordered_step (jb : JitterBuffer Pcm) (op : JitterOp Pcm) (ordered : jb.Ordered) :
    ((jitterMachine Pcm).step jb op).1.Ordered := by
  cases op with
  | push seqNum pcm =>
      intro waiting start within
      rw [show ((jitterMachine Pcm).step jb (.push seqNum pcm)).1 = jb.push seqNum pcm from rfl] at *
      rw [push_nextPlayoutSeq] at waiting
      have within' : jb.Within start := fun f member =>
        within f (mem_push_of_mem member seqNum pcm)
      by_cases accepts : jb.Accepts seqNum
      · have near := within ⟨seqNum, pcm⟩
          ((push_frames_of_accepts accepts pcm).mem_iff.mpr List.mem_cons_self)
        exact (ordered waiting start within').push within' near pcm
      · rw [OrderedFrom, push_frames_of_not_accepts accepts]
        exact ordered waiting start within'
  | pop =>
      change jb.pop.2.Ordered
      rcases jb.pop_cases with ⟨_, same⟩ | ⟨e, before, f, after, _, _, _, _, popped⟩ |
        ⟨e, _, _, missed⟩
      · rwa [same]
      · rw [popped]
        intro waiting
        cases waiting
      · rw [missed]
        intro waiting
        cases waiting
  | adapt elapsedSecs =>
      intro waiting start within
      have frames := adapt_frames jb elapsedSecs
      rw [show ((jitterMachine Pcm).step jb (.adapt elapsedSecs)).1 = jb.adapt elapsedSecs from rfl]
        at *
      rw [adapt_nextPlayoutSeq] at waiting
      rw [Within, frames] at within
      rw [OrderedFrom, frames]
      exact ordered waiting start within
  | reset =>
      intro _ _ _
      exact List.Pairwise.nil

/-- In every reachable state the buffer is in order before playout has started. -/
theorem ordered_run (history : List (JitterOp Pcm)) :
    ((new : JitterBuffer Pcm).run history).Ordered :=
  Machine.invariant Ordered (fun jb op ordered _ => ordered_step jb op ordered)
    (fun _ _ _ => List.Pairwise.nil) ((jitterMachine Pcm).along_true _ history)

/-! ## Buffers that playout cannot tell apart -/

/-- The two buffers hold the same frames, in the same order as long as playout has
not started, and agree in all else. -/
structure Alike (jb jb' : JitterBuffer Pcm) : Prop where
  same : ∃ frames, jb' = { jb with frames := frames }
  frames : jb.frames.Perm jb'.frames
  waiting : jb.nextPlayoutSeq = none → jb.frames = jb'.frames
  distinct : jb.NoDuplicates

theorem Alike.refl {jb : JitterBuffer Pcm} (distinct : jb.NoDuplicates) : jb.Alike jb :=
  ⟨⟨jb.frames, rfl⟩, List.Perm.refl _, fun _ => rfl, distinct⟩

/-- Two alike buffers of which playout has not started are one. -/
theorem Alike.eq_of_waiting {jb jb' : JitterBuffer Pcm} (alike : jb.Alike jb')
    (waiting : jb.nextPlayoutSeq = none) : jb' = jb := by
  obtain ⟨⟨frames, rfl⟩, _, same, _⟩ := alike
  have frames' : jb.frames = frames := same waiting
  rw [← frames']

theorem Alike.push {jb jb' : JitterBuffer Pcm} (alike : jb.Alike jb') (seqNum : UInt16)
    (pcm : Pcm) : (jb.push seqNum pcm).Alike (jb'.push seqNum pcm) := by
  have distinct := noDuplicates_step jb (.push seqNum pcm) alike.distinct
  cases next : jb.nextPlayoutSeq with
  | none =>
      rw [alike.eq_of_waiting next]
      exact Alike.refl distinct
  | some position =>
      obtain ⟨⟨frames, rfl⟩, perm, _, _⟩ := alike
      have accepts : jb.Accepts seqNum ↔
          JitterBuffer.Accepts { jb with frames := frames } seqNum := by
        simp only [Accepts, contains_eq_false, perm.length_eq, perm.mem_iff]
        rfl
      refine ⟨⟨(JitterBuffer.push { jb with frames := frames } seqNum pcm).frames,
        (push_eq ..).trans ?_⟩, ?_, fun waiting => ?_, distinct⟩
      · rw [push_eq jb]
        rfl
      · by_cases taken : jb.Accepts seqNum
        · exact (push_frames_of_accepts taken pcm).trans
            ((perm.cons _).trans (push_frames_of_accepts (accepts.mp taken) pcm).symm)
        · rw [push_frames_of_not_accepts taken,
            push_frames_of_not_accepts fun accepted => taken (accepts.mpr accepted)]
          exact perm
      · rw [push_nextPlayoutSeq, next] at waiting
        cases waiting

theorem Alike.pop {jb jb' : JitterBuffer Pcm} (alike : jb.Alike jb') :
    jb.pop.2.Alike jb'.pop.2 ∧ jb.pop.1 = jb'.pop.1 := by
  have distinct := noDuplicates_step jb .pop alike.distinct
  cases next : jb.nextPlayoutSeq with
  | none =>
      rw [alike.eq_of_waiting next]
      exact ⟨Alike.refl distinct, rfl⟩
  | some position =>
      obtain ⟨⟨frames, rfl⟩, perm, same, nodup⟩ := alike
      have distinct' : JitterBuffer.NoDuplicates { jb with frames := frames } :=
        (perm.map _).nodup_iff.mp nodup
      by_cases empty : jb.frames = []
      · have empty' : frames = [] := List.nil_perm.mp (empty ▸ perm)
        rw [pop_of_empty empty, pop_of_empty empty']
        exact ⟨⟨⟨frames, rfl⟩, perm, same, nodup⟩, rfl⟩
      · have nonempty : frames ≠ [] := fun none => empty (List.perm_nil.mp (none ▸ perm))
        obtain ⟨returns, left⟩ := pop_of_started nodup next empty
        obtain ⟨returns', left'⟩ := pop_of_started distinct' next nonempty
        refine ⟨⟨⟨frames.filter fun f => f.seqNum != position, left'.trans ?_⟩, ?_,
          fun waiting => ?_, distinct⟩, ?_⟩
        · rw [left]
        · rw [left, left']
          exact perm.filter _
        · rw [left] at waiting
          cases waiting
        · refine Option.ext fun pcm => ?_
          rw [returns, returns', perm.mem_iff]

theorem Alike.adapt {jb jb' : JitterBuffer Pcm} (alike : jb.Alike jb') (elapsedSecs : ℚ) :
    (jb.adapt elapsedSecs).Alike (jb'.adapt elapsedSecs) := by
  have distinct := noDuplicates_step jb (.adapt elapsedSecs) alike.distinct
  obtain ⟨⟨frames, rfl⟩, perm, same, _⟩ := alike
  have moved := adapt_with jb elapsedSecs frames jb.nextPlayoutSeq
  refine ⟨⟨frames, moved.trans ?_⟩, ?_, fun waiting => ?_, distinct⟩
  · rw [← adapt_nextPlayoutSeq jb elapsedSecs]
  · rw [adapt_frames, adapt_frames]
    exact perm
  · rw [adapt_nextPlayoutSeq] at waiting
    rw [adapt_frames, adapt_frames]
    exact same waiting

/-- **Alike buffers stay alike**, and their pops return the same, as long as neither
is reset. -/
theorem Alike.step {jb jb' : JitterBuffer Pcm} (alike : jb.Alike jb') {op : JitterOp Pcm}
    (kept : op.isReset = false) :
    ((jitterMachine Pcm).step jb op).1.Alike ((jitterMachine Pcm).step jb' op).1 ∧
      ((jitterMachine Pcm).step jb op).2 = ((jitterMachine Pcm).step jb' op).2 := by
  cases op with
  | push seqNum pcm => exact ⟨alike.push seqNum pcm, rfl⟩
  | pop => exact ⟨alike.pop.1, congrArg (fun result => [result]) alike.pop.2⟩
  | adapt elapsedSecs => exact ⟨alike.adapt elapsedSecs, rfl⟩
  | reset => cases kept

/-! ## A batch of pushes -/

/-- The pushes of a batch. -/
def pushes (batch : List (UInt16 × Pcm)) : List (JitterOp Pcm) :=
  batch.map fun entry => .push entry.1 entry.2

/-- The frames of a batch that are not late. -/
def onTime (jb : JitterBuffer Pcm) (batch : List (UInt16 × Pcm)) : List (JitterFrame Pcm) :=
  (batch.filter fun entry => !jb.isLate entry.1).map fun entry => ⟨entry.1, entry.2⟩

/-- How many packets of a batch are late. -/
def lateCount (jb : JitterBuffer Pcm) (batch : List (UInt16 × Pcm)) : Nat :=
  batch.countP fun entry => jb.isLate entry.1

/-- The batch can be taken in: its numbers are distinct and not buffered, and there is
room for all of it. -/
structure Fits (jb : JitterBuffer Pcm) (batch : List (UInt16 × Pcm)) : Prop where
  distinct : (batch.map Prod.fst).Nodup
  absent : ∀ entry ∈ batch, ∀ f ∈ jb.frames, f.seqNum ≠ entry.1
  room : jb.frames.length + batch.length ≤ 2 * maxDepth

theorem Fits.perm {jb : JitterBuffer Pcm} {batch batch' : List (UInt16 × Pcm)}
    (fits : jb.Fits batch) (perm : batch.Perm batch') : jb.Fits batch' where
  distinct := (perm.map Prod.fst).nodup_iff.mp fits.distinct
  absent entry member := fits.absent entry (perm.mem_iff.mpr member)
  room := perm.length_eq ▸ fits.room

/-- The first packet of a batch that fits is taken in unless it is late, and the rest
still fits. -/
theorem Fits.push {jb : JitterBuffer Pcm} {seqNum : UInt16} {pcm : Pcm}
    {batch : List (UInt16 × Pcm)} (fits : jb.Fits ((seqNum, pcm) :: batch)) :
    (jb.Accepts seqNum ↔ jb.isLate seqNum = false) ∧ (jb.push seqNum pcm).Fits batch := by
  obtain ⟨distinct, absent, room⟩ := fits
  obtain ⟨fresh, rest⟩ := List.nodup_cons.mp distinct
  rw [List.length_cons] at room
  have accepts : jb.Accepts seqNum ↔ jb.isLate seqNum = false := by
    refine ⟨And.left, fun early => ⟨early, ?_, by omega⟩⟩
    exact contains_eq_false.mpr (absent (seqNum, pcm) List.mem_cons_self)
  refine ⟨accepts, rest, fun entry member f buffered => ?_, ?_⟩
  · have old := absent entry (List.mem_cons_of_mem _ member)
    rcases eq_or_mem_of_mem_push buffered with rfl | older
    · intro same
      have inside := List.mem_map_of_mem (f := Prod.fst) member
      rw [← same] at inside
      exact fresh inside
    · exact old f older
  · by_cases taken : jb.Accepts seqNum
    · rw [(push_frames_of_accepts taken pcm).length_eq, List.length_cons]
      omega
    · rw [push_frames_of_not_accepts taken]
      omega

/-- **What a batch leaves behind**: its packets that are not late join the frames, and
all of them the statistics. -/
theorem run_pushes {jb : JitterBuffer Pcm} {batch : List (UInt16 × Pcm)} (fits : jb.Fits batch) :
    (jb.run (pushes batch)).frames.Perm (jb.onTime batch ++ jb.frames) ∧
      jb.run (pushes batch) = { jb with
        frames := (jb.run (pushes batch)).frames
        totalPackets := jb.totalPackets + batch.length
        latePackets := jb.latePackets + jb.lateCount batch } := by
  induction batch generalizing jb with
  | nil => exact ⟨List.Perm.refl _, rfl⟩
  | cons entry rest ih =>
      obtain ⟨seqNum, pcm⟩ := entry
      obtain ⟨accepts, fits'⟩ := fits.push
      obtain ⟨frames, same⟩ := ih fits'
      have pushed := push_eq jb seqNum pcm
      have late : ∀ other, (jb.push seqNum pcm).isLate other = jb.isLate other := by
        intro other
        rw [pushed]
        rfl
      have onTime' : (jb.push seqNum pcm).onTime rest = jb.onTime rest := by
        simp only [onTime, late]
      have lateCount' : (jb.push seqNum pcm).lateCount rest = jb.lateCount rest := by
        simp only [lateCount, late]
      have unfolded : jb.run (pushes ((seqNum, pcm) :: rest)) =
          (jb.push seqNum pcm).run (pushes rest) := rfl
      rw [onTime'] at frames
      rw [lateCount'] at same
      rw [unfolded]
      constructor
      · refine frames.trans ?_
        by_cases taken : jb.Accepts seqNum
        · have first : jb.onTime ((seqNum, pcm) :: rest) = ⟨seqNum, pcm⟩ :: jb.onTime rest := by
            rw [onTime, List.filter_cons_of_pos (by simp [accepts.mp taken])]
            rfl
          rw [first]
          exact ((push_frames_of_accepts taken pcm).append_left _).trans List.perm_middle
        · have first : jb.onTime ((seqNum, pcm) :: rest) = jb.onTime rest := by
            have old : jb.isLate seqNum = true := by simpa using mt accepts.mpr taken
            rw [onTime, List.filter_cons_of_neg (by simp [old])]
            rfl
          rw [first, push_frames_of_not_accepts taken]
      · refine same.trans ?_
        rw [pushed]
        simp only [lateCount, List.countP_cons, List.length_cons]
        congr 1
        · omega
        · omega

/-- Before playout has started, a batch within a window leaves the buffer in order. -/
theorem orderedFrom_run_pushes {jb : JitterBuffer Pcm} {start : UInt16}
    {batch : List (UInt16 × Pcm)} (ordered : jb.OrderedFrom start) (within : jb.Within start)
    (near : ∀ entry ∈ batch, ahead start entry.1 ≤ 32766) :
    (jb.run (pushes batch)).OrderedFrom start := by
  induction batch generalizing jb with
  | nil => exact ordered
  | cons entry rest ih =>
      obtain ⟨seqNum, pcm⟩ := entry
      have now := near (seqNum, pcm) List.mem_cons_self
      refine ih (ordered.push within now pcm) (fun f member => ?_)
        fun later member => near later (List.mem_cons_of_mem _ member)
      rcases eq_or_mem_of_mem_push member with rfl | older
      · exact now
      · exact within f older

/-- **Two orders of a batch leave alike buffers behind.** -/
theorem alike_of_perm {jb : JitterBuffer Pcm} {batch batch' : List (UInt16 × Pcm)}
    (distinct : jb.NoDuplicates) (ordered : jb.Ordered) (fits : jb.Fits batch)
    (perm : batch.Perm batch')
    (window : jb.nextPlayoutSeq = none → ∃ start, jb.Within start ∧
      ∀ entry ∈ batch, ahead start entry.1 ≤ 32766) :
    (jb.run (pushes batch)).Alike (jb.run (pushes batch')) := by
  obtain ⟨frames, same⟩ := run_pushes fits
  obtain ⟨frames', same'⟩ := run_pushes (fits.perm perm)
  have total := perm.length_eq
  have late : jb.lateCount batch = jb.lateCount batch' := perm.countP_eq _
  have onTime' : (jb.onTime batch).Perm (jb.onTime batch') := (perm.filter _).map _
  have both : (jb.run (pushes batch)).frames.Perm (jb.run (pushes batch')).frames :=
    frames.trans ((onTime'.append_right jb.frames).trans frames'.symm)
  refine ⟨⟨(jb.run (pushes batch')).frames, same'.trans ?_⟩, both, fun waiting => ?_, ?_⟩
  · rw [same, total, late]
  · have waiting' : jb.nextPlayoutSeq = none := by rwa [same] at waiting
    obtain ⟨start, within, near⟩ := window waiting'
    have inOrder := ordered waiting' start within
    have first := orderedFrom_run_pushes inOrder within near
    have second := orderedFrom_run_pushes inOrder within fun entry member =>
      near entry (perm.mem_iff.mpr member)
    refine List.Perm.eq_of_pairwise (fun f g _ _ less less' => ?_) first second both
    exact absurd less' (Nat.lt_asymm less)
  · exact Machine.invariant NoDuplicates (fun jb op distinct _ => noDuplicates_step jb op distinct)
      distinct ((jitterMachine Pcm).along_true _ _)

/-- **The order of a batch goes unseen.** In every reachable state, two orders of a
batch of pushes under distinct numbers that are not buffered, with room for all of
them, lead to the same pop results and the same target depth in every later run without
a reset. Before playout has started the numbers have to lie in one window, together
with the buffered ones. -/
theorem batch_order_unseen (history later : List (JitterOp Pcm))
    (batch batch' : List (UInt16 × Pcm)) (perm : batch.Perm batch')
    (distinct : (batch.map Prod.fst).Nodup)
    (absent : ∀ entry ∈ batch, ∀ f ∈ ((new : JitterBuffer Pcm).run history).frames,
      f.seqNum ≠ entry.1)
    (room : ((new : JitterBuffer Pcm).run history).frames.length + batch.length ≤ 2 * maxDepth)
    (window : ((new : JitterBuffer Pcm).run history).nextPlayoutSeq = none → ∃ start,
      (∀ f ∈ ((new : JitterBuffer Pcm).run history).frames, ahead start f.seqNum ≤ 32766) ∧
        ∀ entry ∈ batch, ahead start entry.1 ≤ 32766)
    (noReset : ∀ op ∈ later, op.isReset = false) :
    let jb := ((new : JitterBuffer Pcm).run history).run (pushes batch)
    let jb' := ((new : JitterBuffer Pcm).run history).run (pushes batch')
    jb.popped later = jb'.popped later ∧
      (jb.run later).targetDepth = (jb'.run later).targetDepth := by
  intro jb jb'
  have alike : jb.Alike jb' := alike_of_perm (noDuplicates_run history) (ordered_run history)
    ⟨distinct, absent, room⟩ perm window
  have side := Machine.simulation (M := jitterMachine Pcm) (N := jitterMachine Pcm) Alike id
    (A := fun op => op.isReset = false) (fun _ _ _ alike kept => alike.step kept) alike noReset
  rw [List.map_id] at side
  obtain ⟨⟨⟨frames, same⟩, _⟩, results⟩ := side
  refine ⟨results, ?_⟩
  change _ = ((jitterMachine Pcm).run jb' later).targetDepth
  rw [same]

/-- Two frames that cross the wrap in the wrong order, played in order. -/
theorem batch_order_unseen_wrap :
    ((new : JitterBuffer Nat).run (pushes [(0, 71), (65535, 70)])).popped [.pop, .pop] =
      [some 70, some 71] :=
  (batch_order_unseen [] [.pop, .pop] [(0, 71), (65535, 70)] [(65535, 70), (0, 71)]
    (List.Perm.swap ..) (by decide +kernel) (by decide +kernel) (by decide +kernel)
    (fun _ => ⟨65535, by decide +kernel, by decide +kernel⟩) (by decide +kernel)).1.trans
    (by decide +kernel)

end JitterBuffer

end VoiceChat
