import Mathlib.Data.Nat.Nth
import VoiceChat.Jitter.Reordering

/-!
# What a buffer is going to play

Between the arrival of packets and the end of playout nothing is random: a buffer that
playout has not started on determines all later pops, as long as nothing else arrives.
Once its target depth is reached, the frames are popped in the order of their distances
from the first one, each in the pop of its distance (`popAt_unplayed`). The playlist of a
buffer is the set of these distances and samples, and two buffers pop the same exactly
when their playlists agree.

A burst adds to the playlist what is not buffered yet and what there is room for
(`frames_pushes`). The distances count from the first frame: that one does not depend on the
order of a burst which lies on one side of it (`frontAfter_perm`), and does otherwise
(`frontAfter_of_not_oneSided`). Around the circle a few frames look different from different
first ones (`front_eq_of_playlist_eq`), and so do different frames
(`playlist_ne_of_overflow`).
-/

set_option autoImplicit false

namespace VoiceChat

namespace JitterBuffer

open SerialNumber

variable {Pcm : Type}

/-- What playout, which has not started yet, will find: the samples by their distance
from the first frame, and nothing below the target depth. -/
def playlist (jb : JitterBuffer Pcm) : Set (ℕ × Pcm) :=
  match jb.frames with
  | [] => ∅
  | first :: _ =>
    if jb.frames.length < jb.targetDepth then ∅
    else {entry | ∃ f ∈ jb.frames, ahead first.seqNum f.seqNum = entry.1 ∧ f.pcm = entry.2}

/-- The buffer after some pops. -/
def afterPops (jb : JitterBuffer Pcm) (count : ℕ) : JitterBuffer Pcm :=
  (fun jb => jb.pop.2)^[count] jb

/-- What the pop after so many others returns. -/
def popAt (jb : JitterBuffer Pcm) (count : ℕ) : Option Pcm := (jb.afterPops count).pop.1

theorem popAt_succ (jb : JitterBuffer Pcm) (count : ℕ) :
    jb.popAt (count + 1) = jb.pop.2.popAt count := rfl

/-- A pop that changes nothing is repeated for ever. -/
theorem popAt_of_idle {jb : JitterBuffer Pcm} (idle : jb.pop = (none, jb)) (count : ℕ) :
    jb.popAt count = none := by
  induction count with
  | zero => exact congrArg Prod.fst idle
  | succ count ih => rw [popAt_succ, idle, ih]

/-- Once playout has started, each frame is returned by the pop of its distance. -/
theorem popAt_started {jb : JitterBuffer Pcm} {next : UInt16} (distinct : jb.NoDuplicates)
    (started : jb.nextPlayoutSeq = some next) (count : ℕ) (pcm : Pcm) :
    jb.popAt count = some pcm ↔
      ∃ f ∈ jb.frames, ahead next f.seqNum = count ∧ f.pcm = pcm := by
  induction count generalizing jb next with
  | zero =>
      by_cases empty : jb.frames = []
      · rw [popAt_of_idle (pop_of_empty empty), empty]
        simp
      · refine ((pop_of_started distinct started empty).1 pcm).trans ⟨fun member => ?_, ?_⟩
        · exact ⟨⟨next, pcm⟩, member, ahead_self next, rfl⟩
        · rintro ⟨f, member, here, rfl⟩
          rwa [← ahead_eq_zero.mp here]
  | succ count ih =>
      by_cases empty : jb.frames = []
      · rw [popAt_of_idle (pop_of_empty empty), empty]
        simp
      · obtain ⟨moved, frames⟩ := mem_pop_of_started distinct started empty
        have kept : jb.pop.2.NoDuplicates := noDuplicates_step jb .pop distinct
        rw [popAt_succ, ih kept moved]
        constructor
        · rintro ⟨f, member, distance, rfl⟩
          obtain ⟨old, different⟩ := (frames f).mp member
          have := ahead_add_one different
          exact ⟨f, old, by omega, rfl⟩
        · rintro ⟨f, old, distance, rfl⟩
          have different : f.seqNum ≠ next := fun same => by
            rw [same, ahead_self] at distance
            omega
          have := ahead_add_one different
          exact ⟨f, (frames f).mpr ⟨old, different⟩, by omega, rfl⟩

/-- **The playlist is what is popped**: of a buffer that playout has not started on, the
pop of a distance returns the samples that the playlist has there. -/
theorem popAt_unplayed {jb : JitterBuffer Pcm} (distinct : jb.NoDuplicates)
    (unplayed : jb.nextPlayoutSeq = none) (count : ℕ) (pcm : Pcm) :
    jb.popAt count = some pcm ↔ (count, pcm) ∈ jb.playlist := by
  have expects : jb.expected = match jb.frames with
      | [] => none
      | first :: _ =>
        if jb.frames.length < jb.targetDepth then none else some first.seqNum := by
    unfold expected
    rw [unplayed]
    cases jb.frames with
    | nil => rfl
    | cons first rest => rfl
  unfold playlist
  cases content : jb.frames with
  | nil =>
      rw [popAt_of_idle (pop_of_empty content)]
      exact iff_of_false (fun none => by cases none) id
  | cons first rest =>
      rw [content] at expects
      dsimp only at expects ⊢
      by_cases short : (first :: rest).length < jb.targetDepth
      · rw [if_pos short] at expects ⊢
        have idle : jb.pop = (none, jb) := by rw [pop, expects]
        rw [popAt_of_idle idle]
        exact iff_of_false (fun none => by cases none) id
      · rw [if_neg short] at expects ⊢
        -- the first pop starts playout at the first frame
        let started : JitterBuffer Pcm := { jb with nextPlayoutSeq := some first.seqNum }
        have expects' : started.expected = some first.seqNum :=
          expected_of_started rfl (by change jb.frames ≠ []; simp [content])
        have same : jb.pop = started.pop := by
          rw [pop, pop, expects, expects']
          rfl
        have popped : jb.popAt count = started.popAt count := by
          cases count with
          | zero => exact congrArg Prod.fst same
          | succ count => rw [popAt_succ, popAt_succ, same]
        rw [popped, popAt_started (show started.NoDuplicates from distinct) rfl, ← content]
        rfl

theorem lt_of_mem_playlist {jb : JitterBuffer Pcm} {entry : ℕ × Pcm}
    (member : entry ∈ jb.playlist) : entry.1 < 65536 := by
  unfold playlist at member
  split at member
  · cases member
  · split_ifs at member
    · cases member
    · obtain ⟨f, _, distance, _⟩ := member
      rw [← distance]
      exact ahead_lt ..

/-- In the long run nothing is popped. -/
theorem popAt_eq_none_infinite {jb : JitterBuffer Pcm} (distinct : jb.NoDuplicates)
    (unplayed : jb.nextPlayoutSeq = none) : {count | jb.popAt count = none}.Infinite := by
  refine Set.infinite_of_forall_exists_gt fun count => ⟨count + 65536, ?_, by omega⟩
  refine Option.eq_none_iff_forall_ne_some.mpr fun pcm popped => ?_
  have := lt_of_mem_playlist ((popAt_unplayed distinct unplayed _ pcm).mp popped)
  omega

/-- **Two buffers pop the same** exactly when their playlists agree. -/
theorem popAt_eq_iff {jb jb' : JitterBuffer Pcm} (distinct : jb.NoDuplicates)
    (distinct' : jb'.NoDuplicates) (unplayed : jb.nextPlayoutSeq = none)
    (unplayed' : jb'.nextPlayoutSeq = none) :
    (∀ count, jb.popAt count = jb'.popAt count) ↔ jb.playlist = jb'.playlist := by
  constructor
  · intro same
    ext ⟨count, pcm⟩
    rw [← popAt_unplayed distinct unplayed, ← popAt_unplayed distinct' unplayed', same]
  · intro same count
    refine Option.ext fun pcm => ?_
    rw [popAt_unplayed distinct unplayed, popAt_unplayed distinct' unplayed', same]

/-! ## A burst before playout -/

theorem nextPlayoutSeq_pushes (jb : JitterBuffer Pcm) (batch : List (UInt16 × Pcm)) :
    (jb.run (pushes batch)).nextPlayoutSeq = jb.nextPlayoutSeq := by
  induction batch generalizing jb with
  | nil => rfl
  | cons entry rest ih => exact (ih _).trans (push_nextPlayoutSeq ..)

theorem targetDepth_pushes (jb : JitterBuffer Pcm) (batch : List (UInt16 × Pcm)) :
    (jb.run (pushes batch)).targetDepth = jb.targetDepth := by
  induction batch generalizing jb with
  | nil => rfl
  | cons entry rest ih => exact (ih _).trans (jb.push_cases entry.1 entry.2).2.1

/-- The packets whose numbers are not buffered. -/
def unbuffered {α : Type} (jb : JitterBuffer Pcm) (packets : List (UInt16 × α)) :
    List (UInt16 × α) :=
  packets.filter fun packet => !jb.contains packet.1

theorem map_fst_unbuffered {α : Type} (jb : JitterBuffer Pcm) (packets : List (UInt16 × α)) :
    (jb.unbuffered packets).map Prod.fst =
      (packets.map Prod.fst).filter fun seqNum => !jb.contains seqNum := by
  rw [List.filter_map]
  rfl

/-- A packet that is pushed leaves the packets under other numbers as buffered or not as
they are. -/
theorem unbuffered_push {jb : JitterBuffer Pcm} {seqNum : UInt16} {pcm : Pcm}
    {rest : List (UInt16 × Pcm)} (fresh : seqNum ∉ rest.map Prod.fst) :
    (jb.push seqNum pcm).unbuffered rest = jb.unbuffered rest := by
  refine List.filter_congr fun packet member => ?_
  have other : packet.1 ≠ seqNum := fun same => fresh (same ▸ List.mem_map_of_mem member)
  congr 1
  refine Bool.eq_iff_iff.mpr ?_
  simp only [contains, List.any_eq_true, beq_iff_eq]
  constructor
  · rintro ⟨f, buffered, same⟩
    rcases eq_or_mem_of_mem_push buffered with rfl | older
    · exact absurd same.symm other
    · exact ⟨f, older, same⟩
  · rintro ⟨f, buffered, same⟩
    exact ⟨f, mem_push_of_mem buffered seqNum pcm, same⟩

/-- Before playout a push is accepted when its number is not buffered and there is room. -/
theorem accepts_of_unplayed {jb : JitterBuffer Pcm} (unplayed : jb.nextPlayoutSeq = none)
    (seqNum : UInt16) : jb.Accepts seqNum ↔
      jb.contains seqNum = false ∧ jb.frames.length < maxDepth * 2 := by
  have early : jb.isLate seqNum = false := by rw [isLate, unplayed]
  exact and_iff_right early

/-- **What a burst adds before playout**: those of its packets that are not buffered, in
the order in which they come, as many as there is room for. -/
theorem frames_pushes {jb : JitterBuffer Pcm} {batch : List (UInt16 × Pcm)}
    (unplayed : jb.nextPlayoutSeq = none) (distinct : (batch.map Prod.fst).Nodup) :
    (jb.run (pushes batch)).frames.Perm
      (((jb.unbuffered batch).take (2 * maxDepth - jb.frames.length)).map
        (fun packet => ⟨packet.1, packet.2⟩) ++ jb.frames) := by
  induction batch generalizing jb with
  | nil => simp [unbuffered, pushes]
  | cons packet rest ih =>
      obtain ⟨seqNum, pcm⟩ := packet
      obtain ⟨fresh, others⟩ := List.nodup_cons.mp distinct
      have after := ih ((push_nextPlayoutSeq jb seqNum pcm).trans unplayed) others
      rw [unbuffered_push fresh] at after
      refine (show (jb.run (pushes ((seqNum, pcm) :: rest))).frames.Perm _ from after).trans ?_
      by_cases accepts : jb.Accepts seqNum
      · obtain ⟨absent, room⟩ := (accepts_of_unplayed unplayed seqNum).mp accepts
        have taken := push_frames_of_accepts accepts pcm
        have first : jb.unbuffered ((seqNum, pcm) :: rest) = (seqNum, pcm) :: jb.unbuffered rest :=
          List.filter_cons_of_pos (by simp [absent])
        have left : 2 * maxDepth - jb.frames.length =
            2 * maxDepth - (jb.push seqNum pcm).frames.length + 1 := by
          rw [taken.length_eq, List.length_cons]
          omega
        rw [first, left, List.take_succ_cons, List.map_cons]
        exact (taken.append_left _).trans List.perm_middle
      · rw [push_frames_of_not_accepts accepts]
        rw [accepts_of_unplayed unplayed, not_and] at accepts
        have same : (jb.unbuffered rest).take (2 * maxDepth - jb.frames.length) =
            (jb.unbuffered ((seqNum, pcm) :: rest)).take (2 * maxDepth - jb.frames.length) := by
          cases inside : jb.contains seqNum with
          | true =>
              congr 1
              exact (List.filter_cons_of_neg (by simp [inside])).symm
          | false =>
              have full : 2 * maxDepth - jb.frames.length = 0 := by
                have := accepts inside
                omega
              rw [full, List.take_zero, List.take_zero]
        rw [same]

/-- The numbers that are buffered after a burst. -/
theorem numbers_pushes {jb : JitterBuffer Pcm} {batch : List (UInt16 × Pcm)}
    (unplayed : jb.nextPlayoutSeq = none) (distinct : (batch.map Prod.fst).Nodup) :
    ((jb.run (pushes batch)).frames.map JitterFrame.seqNum).Perm
      (((jb.unbuffered batch).map Prod.fst).take (2 * maxDepth - jb.frames.length) ++
        jb.frames.map JitterFrame.seqNum) := by
  refine ((frames_pushes unplayed distinct).map JitterFrame.seqNum).trans (List.Perm.of_eq ?_)
  rw [List.map_append, List.map_map, List.map_take]
  rfl

theorem length_pushes {jb : JitterBuffer Pcm} {batch : List (UInt16 × Pcm)}
    (unplayed : jb.nextPlayoutSeq = none) (distinct : (batch.map Prod.fst).Nodup) :
    (jb.run (pushes batch)).frames.length =
      min (2 * maxDepth - jb.frames.length) (jb.unbuffered batch).length + jb.frames.length := by
  rw [(frames_pushes unplayed distinct).length_eq, List.length_append, List.length_map,
    List.length_take]

/-! ## The front of the buffer -/

/-- `push` puts a frame of the one number before a frame of the other. -/
def Precedes (seqNum other : UInt16) : Prop :=
  0 < ahead seqNum other ∧ ahead seqNum other < 32767

instance (seqNum other : UInt16) : Decidable (Precedes seqNum other) :=
  inferInstanceAs (Decidable (_ ∧ _))

theorem precedes_iff {seqNum other : UInt16} :
    (0 < other - seqNum && other - seqNum < 0xFFFF / 2) = true ↔ Precedes seqNum other := by
  rw [Bool.and_eq_true, decide_eq_true_eq, decide_eq_true_eq, UInt16.lt_iff_toNat_lt,
    UInt16.lt_iff_toNat_lt]
  rfl

/-- Within half the circle the one number precedes the other when it is less far ahead. -/
theorem precedes_iff_ahead {start seqNum other : UInt16} (near : ahead start seqNum ≤ 32766)
    (near' : ahead start other ≤ 32766) :
    Precedes seqNum other ↔ ahead start seqNum < ahead start other :=
  precedes_iff.symm.trans (comesAfter_iff near near')

/-- The number of the first buffered frame. -/
def front (jb : JitterBuffer Pcm) : Option UInt16 := jb.frames.head?.map JitterFrame.seqNum

/-- The front of the buffer after an accepted push. -/
def frontAfter (front : Option UInt16) (seqNum : UInt16) : Option UInt16 :=
  match front with
  | none => some seqNum
  | some head => if Precedes seqNum head then some seqNum else some head

theorem front_push {jb : JitterBuffer Pcm} {seqNum : UInt16} (accepts : jb.Accepts seqNum)
    (pcm : Pcm) : (jb.push seqNum pcm).front = frontAfter jb.front seqNum := by
  rcases (jb.push_cases seqNum pcm).2.2 with ⟨_, frames⟩ | ⟨refused, _⟩
  · rw [front, front, frames, insertPos]
    cases jb.frames with
    | nil => rfl
    | cons head rest =>
        rw [List.findIdx_cons, List.head?_cons, Option.map_some, frontAfter]
        by_cases before : Precedes seqNum head.seqNum
        · rw [precedes_iff.mpr before, if_pos before]
          rfl
        · rw [Bool.eq_false_iff.mpr (mt precedes_iff.mp before), if_neg before]
          rfl
  · exact absurd accepts refused

/-- The front of the buffer after a burst that there is room for. -/
theorem front_pushes {jb : JitterBuffer Pcm} {batch : List (UInt16 × Pcm)}
    (unplayed : jb.nextPlayoutSeq = none) (distinct : (batch.map Prod.fst).Nodup)
    (room : jb.frames.length + (jb.unbuffered batch).length ≤ 2 * maxDepth) :
    (jb.run (pushes batch)).front =
      ((jb.unbuffered batch).map Prod.fst).foldl frontAfter jb.front := by
  induction batch generalizing jb with
  | nil => rfl
  | cons packet rest ih =>
      obtain ⟨seqNum, pcm⟩ := packet
      obtain ⟨fresh, others⟩ := List.nodup_cons.mp distinct
      have after := fun room => ih ((push_nextPlayoutSeq jb seqNum pcm).trans unplayed) others room
      rw [unbuffered_push fresh] at after
      change ((jb.push seqNum pcm).run (pushes rest)).front = _
      cases inside : jb.contains seqNum with
      | true =>
          have skipped : jb.unbuffered ((seqNum, pcm) :: rest) = jb.unbuffered rest :=
            List.filter_cons_of_neg (by simp [inside])
          have refused : ¬ jb.Accepts seqNum := fun accepts => by
            rw [accepts.2.1] at inside
            cases inside
          have same := push_frames_of_not_accepts refused pcm
          rw [skipped] at room ⊢
          rw [after (by rwa [same]), front, front, same]
      | false =>
          have first : jb.unbuffered ((seqNum, pcm) :: rest) = (seqNum, pcm) :: jb.unbuffered rest :=
            List.filter_cons_of_pos (by simp [inside])
          rw [first, List.length_cons] at room
          have accepts := (accepts_of_unplayed unplayed seqNum).mpr ⟨inside, by omega⟩
          have length := (push_frames_of_accepts accepts pcm).length_eq
          rw [List.length_cons] at length
          rw [after (by omega), front_push accepts, first]
          rfl

/-- From a number of the burst on, the front is the least number so far. -/
theorem frontAfter_least {start head : UInt16} {numbers : List UInt16}
    (near : ∀ number ∈ head :: numbers, ahead start number ≤ 32766) :
    ∃ least ∈ head :: numbers, numbers.foldl frontAfter (some head) = some least ∧
      ∀ number ∈ head :: numbers, ahead start least ≤ ahead start number := by
  induction numbers generalizing head with
  | nil => exact ⟨head, List.mem_cons_self, rfl, by simp⟩
  | cons number rest ih =>
      have here := near head List.mem_cons_self
      have next := near number (List.mem_cons_of_mem _ List.mem_cons_self)
      have others : ∀ other ∈ rest, ahead start other ≤ 32766 := fun other member =>
        near other (List.mem_cons_of_mem _ (List.mem_cons_of_mem _ member))
      rw [List.foldl_cons, frontAfter]
      by_cases before : Precedes number head
      · rw [if_pos before]
        obtain ⟨least, member, result, below⟩ := ih (List.forall_mem_cons.mpr ⟨next, others⟩)
        refine ⟨least, List.mem_cons_of_mem _ member, result, List.forall_mem_cons.mpr ⟨?_, below⟩⟩
        have := below number List.mem_cons_self
        have := (precedes_iff_ahead next here).mp before
        omega
      · rw [if_neg before]
        obtain ⟨least, member, result, below⟩ := ih (List.forall_mem_cons.mpr ⟨here, others⟩)
        have first := below head List.mem_cons_self
        rw [precedes_iff_ahead next here] at before
        refine ⟨least, ?_, result, ?_⟩
        · rcases List.mem_cons.mp member with rfl | later
          · exact List.mem_cons_self
          · exact List.mem_cons_of_mem _ (List.mem_cons_of_mem _ later)
        · refine List.forall_mem_cons.mpr ⟨first, List.forall_mem_cons.mpr ⟨by omega, ?_⟩⟩
          exact fun other later => below other (List.mem_cons_of_mem _ later)

/-- A number that is put before the first buffered frame has the earlier numbers of the
burst put before it too: half the circle before that frame does not begin between them. -/
def OneSided (start : UInt16) (front : Option UInt16) (numbers : List UInt16) : Prop :=
  ∀ head ∈ front, ∀ earlier ∈ numbers, ∀ later ∈ numbers,
    ahead start earlier ≤ ahead start later → Precedes later head → Precedes earlier head

instance (start : UInt16) (front : Option UInt16) (numbers : List UInt16) :
    Decidable (OneSided start front numbers) :=
  decidable_of_iff (front.all fun head => numbers.all fun earlier => numbers.all fun later =>
      decide (ahead start earlier ≤ ahead start later → Precedes later head →
        Precedes earlier head)) <| by
    simp only [OneSided, Option.all_eq_true, List.all_eq_true, decide_eq_true_eq, Option.mem_def]

theorem OneSided.subset {start : UInt16} {front : Option UInt16} {numbers numbers' : List UInt16}
    (sided : OneSided start front numbers) (subset : numbers' ⊆ numbers) :
    OneSided start front numbers' :=
  fun head same earlier member later member' =>
    sided head same earlier (subset member) later (subset member')

theorem frontAfter_of_behind {head : UInt16} {numbers : List UInt16}
    (behind : ∀ number ∈ numbers, ¬ Precedes number head) :
    numbers.foldl frontAfter (some head) = some head := by
  induction numbers with
  | nil => rfl
  | cons number rest ih =>
      rw [List.foldl_cons, frontAfter, if_neg (behind number List.mem_cons_self)]
      exact ih fun other member => behind other (List.mem_cons_of_mem _ member)

/-- A burst on one side of the first frame ends up with its least number at the front, when
one of its numbers is put there at all. -/
theorem frontAfter_of_precedes {start head : UInt16} {numbers : List UInt16}
    (near : ∀ number ∈ numbers, ahead start number ≤ 32766)
    (sided : OneSided start (some head) numbers) (reaches : ∃ number ∈ numbers, Precedes number head) :
    ∃ least ∈ numbers, numbers.foldl frontAfter (some head) = some least ∧
      ∀ number ∈ numbers, ahead start least ≤ ahead start number := by
  induction numbers with
  | nil =>
      obtain ⟨_, member, _⟩ := reaches
      cases member
  | cons number rest ih =>
      rw [List.foldl_cons, frontAfter]
      by_cases before : Precedes number head
      · rw [if_pos before]
        exact frontAfter_least near
      · rw [if_neg before]
        obtain ⟨other, member, precedes⟩ := reaches
        have later : other ∈ rest := by
          rcases List.mem_cons.mp member with rfl | later
          · exact absurd precedes before
          · exact later
        obtain ⟨least, inside, result, below⟩ := ih
          (fun other member => near other (List.mem_cons_of_mem _ member))
          (sided.subset (List.subset_cons_self ..))
          ⟨other, later, precedes⟩
        refine ⟨least, List.mem_cons_of_mem _ inside, result, List.forall_mem_cons.mpr ⟨?_, below⟩⟩
        -- the number put before the frame would otherwise take this one along
        by_contra less
        exact before (sided head rfl number List.mem_cons_self other member
          (by have := below other later; omega) precedes)

/-- **The front after a burst** on one side of it does not depend on the order. -/
theorem frontAfter_perm {start : UInt16} {front : Option UInt16} {numbers numbers' : List UInt16}
    (near : ∀ number ∈ numbers, ahead start number ≤ 32766)
    (sided : OneSided start front numbers) (perm : numbers.Perm numbers') :
    numbers.foldl frontAfter front = numbers'.foldl frontAfter front := by
  have near' : ∀ number ∈ numbers', ahead start number ≤ 32766 := fun number member =>
    near number (perm.mem_iff.mpr member)
  have sided' : OneSided start front numbers' := sided.subset perm.symm.subset
  -- the least of the numbers is one number
  have unique : ∀ {c c' : UInt16}, c ∈ numbers → c' ∈ numbers' →
      (∀ number ∈ numbers, ahead start c ≤ ahead start number) →
      (∀ number ∈ numbers', ahead start c' ≤ ahead start number) → c = c' := by
    intro c c' inside inside' below below'
    have := below c' (perm.mem_iff.mpr inside')
    have := below' c (perm.mem_iff.mp inside)
    exact ahead_inj.mp (show ahead start c = ahead start c' by omega)
  cases front with
  | none =>
      cases numbers with
      | nil => rw [List.nil_perm.mp perm]
      | cons number rest =>
          cases numbers' with
          | nil => exact absurd perm.length_eq (by simp)
          | cons number' rest' =>
              obtain ⟨least, inside, result, below⟩ := frontAfter_least near
              obtain ⟨least', inside', result', below'⟩ := frontAfter_least near'
              rw [unique inside inside' below below'] at result
              exact result.trans result'.symm
  | some head =>
      by_cases reaches : ∃ number ∈ numbers, Precedes number head
      · obtain ⟨least, inside, result, below⟩ := frontAfter_of_precedes near sided reaches
        obtain ⟨least', inside', result', below'⟩ := frontAfter_of_precedes near' sided'
          (reaches.imp fun _ => And.imp_left perm.mem_iff.mp)
        rw [result, result', unique inside inside' below below']
      · have behind : ∀ number ∈ numbers, ¬ Precedes number head := fun number member before =>
          reaches ⟨number, member, before⟩
        rw [frontAfter_of_behind behind, frontAfter_of_behind fun number member =>
          behind number (perm.mem_iff.mpr member)]

/-- Numbers in order put the first of them before a frame that precedes it, and no other. -/
theorem frontAfter_of_inOrder {start head : UInt16} {numbers : List UInt16}
    (near : ∀ number ∈ numbers, ahead start number ≤ 32766)
    (inOrder : numbers.Pairwise fun earlier later => ahead start earlier < ahead start later)
    (reaches : ∃ number ∈ numbers, Precedes number head) :
    ∃ number ∈ numbers, numbers.foldl frontAfter (some head) = some number ∧
      Precedes number head := by
  induction numbers with
  | nil =>
      obtain ⟨_, member, _⟩ := reaches
      cases member
  | cons number rest ih =>
      obtain ⟨first, others⟩ := List.pairwise_cons.mp inOrder
      rw [List.foldl_cons, frontAfter]
      by_cases before : Precedes number head
      · rw [if_pos before]
        refine ⟨number, List.mem_cons_self, frontAfter_of_behind fun other member precedes => ?_,
          before⟩
        have := (precedes_iff_ahead (near other (List.mem_cons_of_mem _ member))
          (near number List.mem_cons_self)).mp precedes
        have := first other member
        omega
      · rw [if_neg before]
        obtain ⟨other, member, precedes⟩ := reaches
        have later : other ∈ rest := by
          rcases List.mem_cons.mp member with rfl | later
          · exact absurd precedes before
          · exact later
        obtain ⟨result, inside, same, precedes'⟩ := ih
          (fun other member => near other (List.mem_cons_of_mem _ member)) others
          ⟨other, later, precedes⟩
        exact ⟨result, List.mem_cons_of_mem _ inside, same, precedes'⟩

/-- **A burst on both sides of the first frame** has two orders with different fronts: in
order, and with a number first that is put before the frame. -/
theorem frontAfter_of_not_oneSided {start : UInt16} {front : Option UInt16}
    {numbers : List UInt16} (near : ∀ number ∈ numbers, ahead start number ≤ 32766)
    (inOrder : numbers.Pairwise fun earlier later => ahead start earlier < ahead start later)
    (both : ¬ OneSided start front numbers) :
    ∃ later ∈ numbers, ∀ others, (later :: others).Perm numbers →
      ∃ head ∈ numbers, ∃ head' ∈ numbers, head ≠ head' ∧
        numbers.foldl frontAfter front = some head ∧
        (later :: others).foldl frontAfter front = some head' := by
  simp only [OneSided, not_forall] at both
  obtain ⟨frame, same, earlier, inside, later, inside', order, before, behind⟩ := both
  obtain rfl : front = some frame := same
  refine ⟨later, inside', fun others perm => ?_⟩
  obtain ⟨head, member, first, precedes⟩ := frontAfter_of_inOrder near inOrder
    ⟨later, inside', before⟩
  have near' : ∀ number ∈ later :: others, ahead start number ≤ 32766 := fun number member =>
    near number (perm.mem_iff.mp member)
  obtain ⟨head', member', second, below⟩ := frontAfter_least near'
  refine ⟨head, member, head', perm.mem_iff.mp member', fun alike => ?_, first, ?_⟩
  · -- the front would precede the frame, and be no later than a number that does not
    rw [← alike] at below
    have := below earlier (perm.mem_iff.mpr inside)
    have := near later inside'
    have := ahead_add_ahead start head frame
    have := ahead_add_ahead start earlier frame
    have := ahead_add_ahead start later frame
    have := ahead_lt head frame
    have := ahead_lt earlier frame
    have := ahead_lt later frame
    unfold Precedes at before behind precedes
    omega
  · rw [List.foldl_cons, frontAfter, if_pos before]
    exact second

/-! ## Playlists of bursts -/

/-- The playlist of a buffer that has reached its target depth. -/
theorem playlist_of_deep {jb : JitterBuffer Pcm} {head : UInt16} (starts : jb.front = some head)
    (deep : jb.targetDepth ≤ jb.frames.length) :
    jb.playlist = {entry | ∃ f ∈ jb.frames, ahead head f.seqNum = entry.1 ∧ f.pcm = entry.2} := by
  rw [front] at starts
  unfold playlist
  cases content : jb.frames with
  | nil =>
      rw [content] at starts
      cases starts
  | cons first rest =>
      rw [content] at starts deep
      cases starts
      exact if_neg (Nat.not_lt.mpr deep)

theorem playlist_of_short {jb : JitterBuffer Pcm} (short : jb.frames.length < jb.targetDepth) :
    jb.playlist = ∅ := by
  unfold playlist
  split
  · rfl
  · exact if_pos short

theorem front_isSome {jb : JitterBuffer Pcm} (nonempty : jb.frames ≠ []) :
    ∃ head, jb.front = some head := by
  obtain ⟨head, rest, content⟩ := List.exists_cons_of_ne_nil nonempty
  exact ⟨head.seqNum, by rw [front, content]; rfl⟩

/-- Around the circle the distances from a number sum up to the numbers, less that number
each time. -/
theorem sum_ahead (head : UInt16) (numbers : List UInt16) :
    ((numbers.map (ahead head)).sum + numbers.length * head.toNat) % 65536 =
      (numbers.map UInt16.toNat).sum % 65536 := by
  induction numbers with
  | nil => simp
  | cons number rest ih =>
      have here : (ahead head number + head.toNat) % 65536 = number.toNat % 65536 := by
        have := head.toNat_lt
        have := number.toNat_lt
        simp only [ahead, UInt16.toNat_sub]
        omega
      rw [List.map_cons, List.sum_cons, List.map_cons, List.sum_cons, List.length_cons,
        Nat.succ_mul]
      omega

/-- **Buffers with the same playlist** have as many frames, at the same distances from the
front. -/
theorem distances_of_playlist_eq {jb jb' : JitterBuffer Pcm} (distinct : jb.NoDuplicates)
    (distinct' : jb'.NoDuplicates) {head head' : UInt16} (starts : jb.front = some head)
    (starts' : jb'.front = some head') (deep : jb.targetDepth ≤ jb.frames.length)
    (deep' : jb'.targetDepth ≤ jb'.frames.length) (same : jb.playlist = jb'.playlist) :
    ((jb.frames.map JitterFrame.seqNum).map (ahead head)).Perm
      ((jb'.frames.map JitterFrame.seqNum).map (ahead head')) := by
  have injective : ∀ number, Function.Injective (ahead number) := fun _ _ _ => ahead_inj.mp
  have listed : ∀ {jb : JitterBuffer Pcm} {head : UInt16}, jb.front = some head →
      jb.targetDepth ≤ jb.frames.length → ∀ distance,
      distance ∈ (jb.frames.map JitterFrame.seqNum).map (ahead head) ↔
        ∃ pcm, (distance, pcm) ∈ jb.playlist := by
    intro jb head starts deep distance
    rw [playlist_of_deep starts deep, List.map_map, List.mem_map]
    constructor
    · rintro ⟨f, member, rfl⟩
      exact ⟨f.pcm, f, member, rfl, rfl⟩
    · rintro ⟨pcm, f, member, rfl, _⟩
      exact ⟨f, member, rfl⟩
  refine (List.perm_ext_iff_of_nodup (distinct.map (injective head))
    (distinct'.map (injective head'))).mpr fun distance => ?_
  rw [listed starts deep, listed starts' deep', same]

/-- With the same front, the same playlist means the same frames. -/
theorem playlist_eq_iff_perm {jb jb' : JitterBuffer Pcm} (distinct : jb.NoDuplicates)
    (distinct' : jb'.NoDuplicates) (starts : jb.front = jb'.front)
    (deep : jb.targetDepth ≤ jb.frames.length) (deep' : jb'.targetDepth ≤ jb'.frames.length) :
    jb.playlist = jb'.playlist ↔ jb.frames.Perm jb'.frames := by
  cases head : jb.front with
  | none =>
      have empty : ∀ {jb : JitterBuffer Pcm}, jb.front = none → jb.frames = [] := by
        intro jb none
        by_contra nonempty
        obtain ⟨head, starts⟩ := front_isSome nonempty
        rw [none] at starts
        cases starts
      have here := empty head
      have there := empty (starts.symm.trans head)
      rw [here, there, playlist, playlist, here, there]
      exact iff_of_true rfl (List.Perm.refl _)
  | some head' =>
      have distinctFrames : ∀ {jb : JitterBuffer Pcm}, jb.NoDuplicates → jb.frames.Nodup :=
        fun distinct => distinct.of_map
      rw [playlist_of_deep head deep, playlist_of_deep (starts.symm.trans head) deep',
        List.perm_ext_iff_of_nodup (distinctFrames distinct) (distinctFrames distinct')]
      have found : ∀ (frames : List (JitterFrame Pcm)) (f : JitterFrame Pcm), f ∈ frames ↔
          (ahead head' f.seqNum, f.pcm) ∈
            {entry : ℕ × Pcm | ∃ g ∈ frames, ahead head' g.seqNum = entry.1 ∧ g.pcm = entry.2} := by
        intro frames f
        constructor
        · exact fun member => ⟨f, member, rfl, rfl⟩
        · rintro ⟨⟨number, pcm⟩, member, distance, samples⟩
          obtain rfl : number = f.seqNum := ahead_inj.mp distance
          obtain rfl : pcm = f.pcm := samples
          exact member
      constructor
      · intro same f
        rw [found, same, ← found]
      · intro same
        ext entry
        exact exists_congr fun f => and_congr_left fun _ => same f

/-- The order of the frames behind the front does not matter. -/
theorem playlist_eq_of_perm {jb jb' : JitterBuffer Pcm} (distinct : jb.NoDuplicates)
    (distinct' : jb'.NoDuplicates) (starts : jb.front = jb'.front)
    (depth : jb.targetDepth = jb'.targetDepth) (perm : jb.frames.Perm jb'.frames) :
    jb.playlist = jb'.playlist := by
  have length := perm.length_eq
  by_cases short : jb.frames.length < jb.targetDepth
  · rw [playlist_of_short short, playlist_of_short (by omega)]
  · exact (playlist_eq_iff_perm distinct distinct' starts (by omega) (by omega)).mpr perm

/-- Around the circle, few frames under the same numbers have the same playlist from one
front only. -/
theorem front_eq_of_playlist_eq {jb jb' : JitterBuffer Pcm} (distinct : jb.NoDuplicates)
    (distinct' : jb'.NoDuplicates) {start head head' : UInt16} (starts : jb.front = some head)
    (starts' : jb'.front = some head') (deep : jb.targetDepth ≤ jb.frames.length)
    (deep' : jb'.targetDepth ≤ jb'.frames.length)
    (numbers : (jb.frames.map JitterFrame.seqNum).Perm (jb'.frames.map JitterFrame.seqNum))
    (few : jb.frames.length ≤ 2 * maxDepth) (near : ahead start head < 2 * maxDepth)
    (near' : ahead start head' < 2 * maxDepth) (same : jb.playlist = jb'.playlist) :
    head = head' := by
  have distances := (distances_of_playlist_eq distinct distinct' starts starts' deep deep'
    same).sum_eq
  have total := sum_ahead head (jb.frames.map JitterFrame.seqNum)
  have total' := sum_ahead head' (jb'.frames.map JitterFrame.seqNum)
  rw [← (numbers.map UInt16.toNat).sum_eq, ← distances, ← numbers.length_eq] at total'
  rw [List.length_map] at total total'
  have some_frame : 0 < jb.frames.length := by
    refine List.length_pos_iff.mpr fun empty => ?_
    rw [front, empty] at starts
    cases starts
  -- a number is the start and its distance from there
  have placed : ∀ number : UInt16,
      number.toNat ≡ start.toNat + ahead start number [MOD 65536] := by
    intro number
    have := number.toNat_lt
    have := start.toNat_lt
    rw [Nat.ModEq, ahead, UInt16.toNat_sub]
    omega
  generalize jb.frames.length = count at few some_frame total total'
  have turned : count * head.toNat ≡ count * head'.toNat [MOD 65536] :=
    Nat.ModEq.add_left_cancel' _ (total.trans total'.symm)
  have apart : count * ahead start head ≡ count * ahead start head' [MOD 65536] := by
    have := ((placed head).mul_left count).symm.trans (turned.trans ((placed head').mul_left count))
    rw [Nat.mul_add, Nat.mul_add] at this
    exact Nat.ModEq.add_left_cancel' _ this
  have short : ∀ distance < 2 * maxDepth, count * distance < 65536 := fun distance near =>
    (Nat.mul_le_mul few (Nat.le_of_lt near)).trans_lt (by decide)
  have total : count * ahead start head = count * ahead start head' :=
    apart.eq_of_lt_of_lt (short _ near) (short _ near')
  exact ahead_inj.mp (Nat.eq_of_mul_eq_mul_left some_frame total)

/-- The burst goes in whatever its order: there is room for all of it, and it lies on one
side of the first buffered frame. -/
structure Takes {α : Type} (jb : JitterBuffer Pcm) (start : UInt16)
    (packets : List (UInt16 × α)) : Prop where
  room : jb.frames.length + (jb.unbuffered packets).length ≤ 2 * maxDepth
  oneSided : OneSided start jb.front ((jb.unbuffered packets).map Prod.fst)

section
variable {jb : JitterBuffer Pcm} {start : UInt16} {batch batch' : List (UInt16 × Pcm)}

/-- Two orders of the packets that are not buffered have the same front and the same
frames. -/
theorem Takes.pushes_perm (takes : jb.Takes start batch) (unplayed : jb.nextPlayoutSeq = none)
    (distinct : (batch.map Prod.fst).Nodup) (distinct' : (batch'.map Prod.fst).Nodup)
    (near : ∀ number ∈ batch.map Prod.fst, ahead start number ≤ 32766)
    (numbers : ((jb.unbuffered batch).map Prod.fst).Perm ((jb.unbuffered batch').map Prod.fst)) :
    (jb.run (pushes batch)).front = (jb.run (pushes batch')).front ∧
      ((jb.run (pushes batch)).frames.Perm (jb.run (pushes batch')).frames ↔
        (jb.unbuffered batch).Perm (jb.unbuffered batch')) := by
  obtain ⟨room, oneSided⟩ := takes
  have length : (jb.unbuffered batch).length = (jb.unbuffered batch').length := by
    simpa using numbers.length_eq
  constructor
  · rw [front_pushes unplayed distinct room, front_pushes unplayed distinct' (length ▸ room)]
    refine frontAfter_perm (fun number member => near number ?_) oneSided numbers
    rw [map_fst_unbuffered] at member
    exact (List.mem_filter.mp member).1
  · have frames := frames_pushes unplayed distinct
    have frames' := frames_pushes unplayed distinct'
    rw [List.take_of_length_le (by omega)] at frames frames'
    have injective : Function.Injective fun packet : UInt16 × Pcm =>
        (⟨packet.1, packet.2⟩ : JitterFrame Pcm) := fun _ _ same => by
      injection same with number pcm
      exact Prod.ext number pcm
    constructor
    · intro same
      have added := frames.symm.trans (same.trans frames')
      exact (List.map_perm_map_iff injective).mp ((List.perm_append_right_iff _).mp added)
    · intro same
      exact frames.trans (((same.map _).append_right _).trans frames'.symm)

end

/-- **When a burst overflows**, the packet that takes the last room is heard. -/
theorem playlist_ne_of_overflow {jb : JitterBuffer Pcm} {batch batch' : List (UInt16 × Pcm)}
    (distinct : jb.NoDuplicates) (unplayed : jb.nextPlayoutSeq = none)
    (shallow : jb.targetDepth ≤ 2 * maxDepth) (fresh : (batch.map Prod.fst).Nodup)
    (fresh' : (batch'.map Prod.fst).Nodup) {before after after' : List UInt16} {last last' : UInt16}
    (numbers : (jb.unbuffered batch).map Prod.fst = before ++ last :: after)
    (numbers' : (jb.unbuffered batch').map Prod.fst = before ++ last' :: after')
    (full : jb.frames.length + before.length + 1 = 2 * maxDepth)
    (different : last.toNat % (2 * maxDepth) ≠ last'.toNat % (2 * maxDepth)) :
    (jb.run (pushes batch)).playlist ≠ (jb.run (pushes batch')).playlist := by
  have depth : maxDepth = 4 := rfl
  have kept : ∀ batch, (jb.run (pushes batch)).NoDuplicates := fun batch =>
    Machine.invariant NoDuplicates (fun jb op distinct _ => noDuplicates_step jb op distinct)
      distinct ((jitterMachine Pcm).along_true _ _)
  have taken : ∀ {batch : List (UInt16 × Pcm)} {last after}, (batch.map Prod.fst).Nodup →
      (jb.unbuffered batch).map Prod.fst = before ++ last :: after →
      ((jb.run (pushes batch)).frames.map JitterFrame.seqNum).Perm
        ((before ++ [last]) ++ jb.frames.map JitterFrame.seqNum) := by
    intro batch last after fresh numbers
    have all := numbers_pushes unplayed fresh
    have room : 2 * maxDepth - jb.frames.length = (before ++ [last]).length := by
      rw [List.length_append, List.length_singleton]
      omega
    rwa [numbers, List.append_cons, room, List.take_left] at all
  have taken₁ := taken fresh numbers
  have taken₂ := taken fresh' numbers'
  have length₁ := taken₁.length_eq
  have length₂ := taken₂.length_eq
  simp only [List.length_map, List.length_append, List.length_singleton] at length₁ length₂
  have nonempty : ∀ {frames : List (JitterFrame Pcm)},
      frames.length = before.length + 1 + jb.frames.length → frames ≠ [] := fun length =>
    List.ne_nil_of_length_pos (by omega)
  obtain ⟨head, starts⟩ := front_isSome (nonempty length₁)
  obtain ⟨head', starts'⟩ := front_isSome (nonempty length₂)
  intro same
  have distances := (distances_of_playlist_eq (kept _) (kept _) starts starts'
    (by rw [targetDepth_pushes]; omega) (by rw [targetDepth_pushes]; omega) same).sum_eq
  have total := sum_ahead head ((jb.run (pushes batch)).frames.map JitterFrame.seqNum)
  have total' := sum_ahead head' ((jb.run (pushes batch')).frames.map JitterFrame.seqNum)
  rw [(taken₁.map UInt16.toNat).sum_eq, List.length_map, length₁] at total
  rw [(taken₂.map UInt16.toNat).sum_eq, List.length_map, length₂, ← distances] at total'
  simp only [List.map_append, List.sum_append, List.map_singleton, List.sum_singleton] at total total'
  rw [show before.length + 1 + jb.frames.length = 8 by omega] at total total'
  rw [depth] at different
  omega

/-- A full buffer takes nothing in. -/
theorem frames_pushes_of_full {jb : JitterBuffer Pcm} (full : 2 * maxDepth ≤ jb.frames.length)
    (batch : List (UInt16 × Pcm)) : (jb.run (pushes batch)).frames = jb.frames := by
  induction batch generalizing jb with
  | nil => rfl
  | cons packet rest ih =>
      have refused : ¬ jb.Accepts packet.1 := fun accepts => by
        have := accepts.2.2
        omega
      have same := push_frames_of_not_accepts refused packet.2
      exact (ih (show 2 * maxDepth ≤ (jb.push packet.1 packet.2).frames.length by
        rwa [same])).trans same

/-- The playlist is made of the frames and the target depth. -/
theorem playlist_congr {jb jb' : JitterBuffer Pcm} (frames : jb.frames = jb'.frames)
    (depth : jb.targetDepth = jb'.targetDepth) : jb.playlist = jb'.playlist := by
  rw [playlist, playlist, frames, depth]

/-- In every reachable state the target depth is at most the maximum. -/
theorem targetDepth_run_le (history : List (JitterOp Pcm)) :
    ((new : JitterBuffer Pcm).run history).targetDepth ≤ maxDepth := by
  refine Machine.invariant (fun jb : JitterBuffer Pcm => jb.targetDepth ≤ maxDepth) ?_
    (show initialDepth ≤ maxDepth by decide) ((jitterMachine Pcm).along_true _ history)
  intro jb op bound _
  cases op with
  | push seqNum pcm => exact (jb.push_cases seqNum pcm).2.1.symm ▸ bound
  | pop =>
      change jb.pop.2.targetDepth ≤ maxDepth
      rcases jb.pop_cases with ⟨_, same⟩ | ⟨e, before, f, after, _, _, _, _, popped⟩ |
        ⟨e, _, _, missed⟩
      · rwa [same]
      · rwa [popped]
      · rwa [missed]
  | adapt elapsedSecs =>
      change (jb.adapt elapsedSecs).targetDepth ≤ maxDepth
      simp only [adapt, resetStats]
      split_ifs with _ raise lower
      · exact bound
      · exact raise.2
      · exact (Nat.sub_le ..).trans bound
      · exact bound
  | reset => exact (by decide : initialDepth ≤ maxDepth)

end JitterBuffer

end VoiceChat
