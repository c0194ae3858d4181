import VoiceChat.Jitter.Reordering

/-!
# The buffered frames are sorted

After playout has started, `push` refuses what lies more than 32767 numbers ahead of the
playout position and puts a frame before the first one that lies less than 32767 numbers
ahead of it. The two comparisons differ at one distance only. A frame at the playout
position therefore goes behind a frame 32767 ahead of it, when that one is alone in the
buffer (`FillsBehind`); every other push keeps the frames sorted (`sorted_iff`).

Frames that were pushed before playout started may lie anywhere. `Marked` keeps their
numbers beside the buffer for as long as they are there. A frame that will still be there
when the last of them is gone lies further ahead than all of them; already while they are
there such frames are in order among themselves, which is what every operation keeps
(`Tidy`).
-/

set_option autoImplicit false

namespace VoiceChat

open SerialNumber

variable {Pcm : Type}

/-- The frames are in order of their distances from a number, and within half the circle
from it. -/
structure JitterBuffer.SortedFrom (jb : JitterBuffer Pcm) (next : UInt16) : Prop where
  ordered : jb.OrderedFrom next
  within : ∀ f ∈ jb.frames, ahead next f.seqNum ≤ 32767

/-- A jitter buffer together with the numbers of the buffered frames that were pushed
before playout started. -/
structure Marked (Pcm : Type) where
  buffer : JitterBuffer Pcm
  early : List UInt16

namespace Marked

def new : Marked Pcm := ⟨JitterBuffer.new, []⟩

/-- The buffer after an operation, and what of the early frames is left. -/
def apply (marked : Marked Pcm) (op : JitterOp Pcm) : Marked Pcm :=
  let buffer := ((jitterMachine Pcm).step marked.buffer op).1
  { buffer := buffer
    early :=
      if marked.buffer.nextPlayoutSeq = none then buffer.frames.map JitterFrame.seqNum
      else marked.early.filter fun seqNum => buffer.contains seqNum }

/-- A marked buffer under a sequence of operations. -/
def machine (Pcm : Type) : Machine (Marked Pcm) (JitterOp Pcm) Empty where
  step marked op := (marked.apply op, [])

/-- Keeping the early frames does not change what the buffer does. -/
theorem run_buffer (marked : Marked Pcm) (ops : List (JitterOp Pcm)) :
    ((machine Pcm).run marked ops).buffer = marked.buffer.run ops :=
  (machine Pcm).run_forget Marked.buffer (fun _ _ => rfl) marked ops

/-- Where everything was pushed after playout started, the frames are sorted. -/
def Sorted (marked : Marked Pcm) : Prop :=
  ∀ next, marked.buffer.nextPlayoutSeq = some next → marked.early = [] →
    marked.buffer.SortedFrom next

/-- The frame whose turn it is comes to a buffer with one frame in it, pushed after playout
started, that lies as far ahead as a frame can. -/
def FillsBehind (marked : Marked Pcm) : JitterOp Pcm → Prop
  | .push seqNum _ => marked.early = [] ∧ marked.buffer.nextPlayoutSeq = some seqNum ∧
      marked.buffer.frames.map JitterFrame.seqNum = [seqNum + 32767]
  | _ => False

/-! ## The invariant -/

/-- A number further ahead than all the early frames. -/
def Outlasts (marked : Marked Pcm) (next seqNum : UInt16) : Prop :=
  ∀ early ∈ marked.early, ahead next early < ahead next seqNum

/-- **The order in a buffer** whose playout has started: the early frames are buffered, the
others lie within half the circle, and those that will outlast the early ones are in
order. -/
structure Tidy (marked : Marked Pcm) (next : UInt16) : Prop where
  buffered : ∀ early ∈ marked.early, ∃ f ∈ marked.buffer.frames, f.seqNum = early
  recent : ∀ f ∈ marked.buffer.frames, f.seqNum ∉ marked.early → ahead next f.seqNum ≤ 32767
  ordered : marked.buffer.frames.Pairwise fun f g => marked.Outlasts next f.seqNum →
    marked.Outlasts next g.seqNum → ahead next f.seqNum < ahead next g.seqNum

/-- A number that outlasts the early frames is not one of theirs. -/
theorem Outlasts.not_mem {marked : Marked Pcm} {next seqNum : UInt16}
    (outlasts : marked.Outlasts next seqNum) : seqNum ∉ marked.early := fun member =>
  Nat.lt_irrefl _ (outlasts seqNum member)

/-- As long as every frame is early there is nothing to keep in order. -/
theorem tidy_of_all_early {marked : Marked Pcm}
    (all : marked.early = marked.buffer.frames.map JitterFrame.seqNum) (next : UInt16) :
    marked.Tidy next where
  buffered early member := by
    rw [all] at member
    exact List.mem_map.mp member
  recent f member late := by
    rw [all] at late
    exact absurd (List.mem_map_of_mem member) late
  ordered := by
    refine List.pairwise_of_forall_mem_list fun f member g _ outlasts => ?_
    refine absurd ?_ outlasts.not_mem
    rw [all]
    exact List.mem_map_of_mem member

/-- Without early frames a tidy buffer is sorted. -/
theorem Tidy.sortedFrom {marked : Marked Pcm} {next : UInt16} (tidy : marked.Tidy next)
    (none : marked.early = []) : marked.buffer.SortedFrom next := by
  have outlasts : ∀ seqNum, marked.Outlasts next seqNum := by
    intro seqNum early member
    rw [none] at member
    cases member
  refine ⟨tidy.ordered.imp fun less => less (outlasts _) (outlasts _), fun f member => ?_⟩
  refine tidy.recent f member ?_
  rw [none]
  exact List.not_mem_nil

/-! ## Pushing -/

/-- A frame that the late test lets pass lies within half the circle. -/
theorem ahead_le_of_not_late {jb : JitterBuffer Pcm} {next seqNum : UInt16}
    (started : jb.nextPlayoutSeq = some next) (onTime : jb.isLate seqNum = false) :
    ahead next seqNum ≤ 32767 := by
  unfold JitterBuffer.isLate at onTime
  rw [started] at onTime
  have least := of_decide_eq_false onTime
  rw [gt_iff_lt, UInt16.lt_iff_toNat_lt] at least
  exact Nat.le_of_not_lt least

/-- What the comparison of `push` takes to come after a number within half the circle does
lie further ahead. -/
theorem lt_of_comesAfter {next seqNum other : UInt16} (near : ahead next seqNum ≤ 32767)
    (after : (0 < other - seqNum && other - seqNum < 0xFFFF / 2) = true) :
    ahead next seqNum < ahead next other := by
  have distance : (other - seqNum).toNat = ahead seqNum other := rfl
  have total := ahead_add_ahead next seqNum other
  rw [Bool.and_eq_true, decide_eq_true_eq, decide_eq_true_eq, UInt16.lt_iff_toNat_lt,
    UInt16.lt_iff_toNat_lt, distance] at after
  change 0 < _ ∧ _ < 32767 at after
  omega

/-- What it takes not to come after lies no further ahead, unless the number is the
position itself. -/
theorem le_of_not_comesAfter {next seqNum other : UInt16} (inFront : seqNum ≠ next)
    (near : ahead next other ≤ 32767)
    (before : (0 < other - seqNum && other - seqNum < 0xFFFF / 2) = false) :
    ahead next other ≤ ahead next seqNum := by
  have distance : (other - seqNum).toNat = ahead seqNum other := rfl
  have total := ahead_add_ahead next seqNum other
  have bound := ahead_lt seqNum other
  have positive : ahead next seqNum ≠ 0 := fun zero => inFront (ahead_eq_zero.mp zero)
  rw [Bool.and_eq_false_iff, decide_eq_false_iff_not, decide_eq_false_iff_not,
    UInt16.lt_iff_toNat_lt, UInt16.lt_iff_toNat_lt, distance] at before
  change ¬ 0 < _ ∨ ¬ _ < 32767 at before
  omega

/-- **The frame whose turn it is** goes to the front of sorted frames, unless the only one
there lies at the edge of the half circle. -/
theorem insertPos_of_sortedFrom {jb : JitterBuffer Pcm} {next : UInt16}
    (sorted : jb.SortedFrom next) (absent : ∀ f ∈ jb.frames, f.seqNum ≠ next)
    (notAlone : jb.frames.map JitterFrame.seqNum ≠ [next + 32767]) : jb.insertPos next = 0 := by
  obtain ⟨ordered, within⟩ := sorted
  rw [JitterBuffer.insertPos]
  cases held : jb.frames with
  | nil => rfl
  | cons first rest =>
    rw [JitterBuffer.OrderedFrom, held] at ordered
    rw [held] at absent within notAlone
    have least : ahead next first.seqNum ≤ 32766 := by
      by_contra far
      have edge : ahead next first.seqNum = 32767 := by
        have := within first List.mem_cons_self
        omega
      refine notAlone ?_
      have alone : rest = [] := by
        refine List.eq_nil_iff_forall_not_mem.mpr fun f member => ?_
        have further := (List.pairwise_cons.mp ordered).1 f member
        have := within f (List.mem_cons_of_mem _ member)
        omega
      rw [alone, List.map_singleton, eq_add_ahead next first.seqNum, edge]
      rfl
    have positive : ahead next first.seqNum ≠ 0 := fun zero =>
      absent first List.mem_cons_self (ahead_eq_zero.mp zero)
    have comes : ahead next next < ahead next first.seqNum := by
      rw [ahead_self]
      exact Nat.pos_of_ne_zero positive
    rw [List.findIdx_cons, (JitterBuffer.comesAfter_iff (by rw [ahead_self]; omega) least).mpr comes]
    rfl

/-- A push that does not fill in behind keeps what outlasts the early frames in order. -/
theorem Tidy.ordered_push {marked : Marked Pcm} {next seqNum : UInt16}
    (tidy : marked.Tidy next) (started : marked.buffer.nextPlayoutSeq = some next) {pcm : Pcm}
    (passes : ¬ marked.FillsBehind (.push seqNum pcm)) :
    (marked.buffer.push seqNum pcm).frames.Pairwise fun f g => marked.Outlasts next f.seqNum →
      marked.Outlasts next g.seqNum → ahead next f.seqNum < ahead next g.seqNum := by
  rcases (marked.buffer.push_cases seqNum pcm).2.2 with ⟨accepts, frames⟩ | ⟨_, frames⟩
  swap
  · rw [frames]
    exact tidy.ordered
  have near := ahead_le_of_not_late started accepts.1
  have different := JitterBuffer.contains_eq_false.mp accepts.2.1
  rw [frames]
  by_cases turn : seqNum = next ∧ marked.early = []
  · -- the frame goes to the front, before the one that is the least far ahead
    obtain ⟨rfl, none⟩ := turn
    have place := insertPos_of_sortedFrom (tidy.sortedFrom none) different
      fun alone => passes ⟨none, started, alone⟩
    rw [place, List.insertIdx_zero]
    refine List.pairwise_cons.mpr ⟨fun f member _ _ => ?_, tidy.ordered⟩
    rw [ahead_self, Nat.pos_iff_ne_zero]
    exact fun zero => different f member (ahead_eq_zero.mp zero)
  · -- the comparison agrees with the distances from the playout position
    refine JitterBuffer.pairwise_insertIdx_findIdx (r := fun f g : JitterFrame Pcm =>
        marked.Outlasts next f.seqNum → marked.Outlasts next g.seqNum →
          ahead next f.seqNum < ahead next g.seqNum) ?_ tidy.ordered ?_ ?_
    · intro f g comes first second outlasts outlasts'
      have less := lt_of_comesAfter near comes
      have between : marked.Outlasts next f.seqNum := fun early member =>
        (outlasts early member).trans less
      exact less.trans (second between outlasts')
    · intro f member notAfter outlasts outlasts'
      have inFront : seqNum ≠ next := by
        rintro rfl
        refine turn ⟨rfl, List.eq_nil_iff_forall_not_mem.mpr fun early member => ?_⟩
        have := outlasts' early member
        rw [ahead_self] at this
        exact Nat.not_lt_zero _ this
      have apart : ahead next f.seqNum ≠ ahead next seqNum := fun same =>
        different f member (ahead_inj.mp same)
      have most := le_of_not_comesAfter inFront (tidy.recent f member outlasts.not_mem) notAfter
      exact lt_of_le_of_ne most apart
    · exact fun f _ comes _ _ => lt_of_comesAfter near comes

/-! ## One operation -/

theorem mem_early_apply {marked : Marked Pcm} {next : UInt16}
    (started : marked.buffer.nextPlayoutSeq = some next) {op : JitterOp Pcm} {early : UInt16} :
    early ∈ (marked.apply op).early ↔
      early ∈ marked.early ∧ ∃ f ∈ (marked.apply op).buffer.frames, f.seqNum = early := by
  unfold apply
  dsimp only
  rw [started, if_neg (Option.some_ne_none next), List.mem_filter, JitterBuffer.contains,
    List.any_eq_true]
  simp only [beq_iff_eq]

/-- What an operation leaves of the early frames is buffered. -/
theorem buffered_apply {marked : Marked Pcm} {next : UInt16}
    (started : marked.buffer.nextPlayoutSeq = some next) (op : JitterOp Pcm) :
    ∀ early ∈ (marked.apply op).early,
      ∃ f ∈ (marked.apply op).buffer.frames, f.seqNum = early := fun _ member =>
  ((mem_early_apply started).mp member).2

/-- An operation that takes nothing out leaves the early frames what they are. -/
theorem Tidy.early_of_kept {marked : Marked Pcm} {next : UInt16} (tidy : marked.Tidy next)
    (started : marked.buffer.nextPlayoutSeq = some next) {op : JitterOp Pcm}
    (kept : ∀ f ∈ marked.buffer.frames, f ∈ (marked.apply op).buffer.frames) :
    (marked.apply op).early = marked.early := by
  unfold Marked.apply at kept ⊢
  dsimp only at kept ⊢
  rw [started, if_neg (Option.some_ne_none next)]
  refine List.filter_eq_self.mpr fun early member => ?_
  obtain ⟨f, held, rfl⟩ := tidy.buffered early member
  exact List.any_eq_true.mpr ⟨f, kept f held, beq_self_eq_true _⟩

theorem Tidy.push {marked : Marked Pcm} {next seqNum : UInt16} (tidy : marked.Tidy next)
    (started : marked.buffer.nextPlayoutSeq = some next) {pcm : Pcm}
    (passes : ¬ marked.FillsBehind (.push seqNum pcm)) :
    (marked.apply (.push seqNum pcm)).Tidy next := by
  have early : (marked.apply (.push seqNum pcm)).early = marked.early :=
    tidy.early_of_kept started fun f member => JitterBuffer.mem_push_of_mem member seqNum pcm
  refine ⟨buffered_apply started _, fun f member late => ?_, ?_⟩
  · rw [early] at late
    change f ∈ (marked.buffer.push seqNum pcm).frames at member
    by_cases accepts : marked.buffer.Accepts seqNum
    · rcases JitterBuffer.eq_or_mem_of_mem_push member with rfl | held
      · exact ahead_le_of_not_late started accepts.1
      · exact tidy.recent f held late
    · rw [JitterBuffer.push_frames_of_not_accepts accepts] at member
      exact tidy.recent f member late
  · unfold Outlasts
    rw [early]
    exact tidy.ordered_push started passes

/-- A pop takes playout one further, and every frame one closer. -/
theorem Tidy.pop {marked : Marked Pcm} {next : UInt16} (tidy : marked.Tidy next)
    (distinct : marked.buffer.NoDuplicates)
    (started : marked.buffer.nextPlayoutSeq = some next) (nonempty : marked.buffer.frames ≠ []) :
    (marked.apply .pop).Tidy (next + 1) := by
  have frames : (marked.apply .pop).buffer.frames =
      marked.buffer.frames.filter fun f => f.seqNum != next :=
    congrArg JitterBuffer.frames (JitterBuffer.pop_of_started distinct started nonempty).2
  have stays : ∀ f ∈ marked.buffer.frames, f.seqNum ≠ next →
      f ∈ (marked.apply .pop).buffer.frames := by
    intro f held other
    rw [frames]
    exact List.mem_filter.mpr ⟨held, bne_iff_ne.mpr other⟩
  have came : ∀ f ∈ (marked.apply .pop).buffer.frames,
      f ∈ marked.buffer.frames ∧ f.seqNum ≠ next := by
    intro f member
    rw [frames] at member
    exact (List.mem_filter.mp member).imp_right bne_iff_ne.mp
  have outlasts : ∀ seqNum, seqNum ≠ next → (marked.apply .pop).Outlasts (next + 1) seqNum →
      marked.Outlasts next seqNum := by
    intro seqNum other longest early member
    have closer := ahead_add_one other
    by_cases turn : early = next
    · rw [turn, ahead_self]
      omega
    · obtain ⟨f, held, rfl⟩ := tidy.buffered early member
      have less := longest f.seqNum
        ((mem_early_apply started).mpr ⟨member, f, stays f held turn, rfl⟩)
      have closer' := ahead_add_one turn
      omega
  refine ⟨buffered_apply started _, fun f member late => ?_, ?_⟩
  · obtain ⟨held, other⟩ := came f member
    have near := tidy.recent f held fun early =>
      late ((mem_early_apply started).mpr ⟨early, f, member, rfl⟩)
    have closer := ahead_add_one other
    omega
  · have ordered := tidy.ordered.filter fun f => f.seqNum != next
    rw [← frames] at ordered
    refine ordered.imp_of_mem fun member member' less first second => ?_
    have other := (came _ member).2
    have other' := (came _ member').2
    have further := less (outlasts _ other first) (outlasts _ other' second)
    have closer := ahead_add_one other
    have closer' := ahead_add_one other'
    omega

/-- **An operation after the start** keeps a buffer tidy, if it does not fill in behind. -/
theorem Tidy.apply {marked : Marked Pcm} {next next' : UInt16} (tidy : marked.Tidy next)
    (distinct : marked.buffer.NoDuplicates)
    (started : marked.buffer.nextPlayoutSeq = some next) {op : JitterOp Pcm}
    (passes : ¬ marked.FillsBehind op)
    (goesOn : (marked.apply op).buffer.nextPlayoutSeq = some next') :
    (marked.apply op).Tidy next' := by
  cases op with
  | push seqNum pcm =>
    have same := (marked.buffer.push_nextPlayoutSeq seqNum pcm).symm.trans goesOn
    rw [started, Option.some_inj] at same
    rw [← same]
    exact tidy.push started passes
  | pop =>
    by_cases empty : marked.buffer.frames = []
    · have still : (marked.apply .pop).buffer = marked.buffer :=
        congrArg Prod.snd (JitterBuffer.pop_of_empty empty)
      have frames : (marked.apply .pop).buffer.frames = [] := by rw [still, empty]
      refine ⟨buffered_apply started _, fun f member => ?_, ?_⟩
      · rw [frames] at member
        cases member
      · rw [frames]
        exact List.Pairwise.nil
    · have moved := (JitterBuffer.mem_pop_of_started distinct started empty).1.symm.trans goesOn
      rw [Option.some_inj] at moved
      rw [← moved]
      exact tidy.pop distinct started empty
  | adapt elapsedSecs =>
    have same := (marked.buffer.adapt_nextPlayoutSeq elapsedSecs).symm.trans goesOn
    rw [started, Option.some_inj] at same
    have frames : (marked.apply (.adapt elapsedSecs)).buffer.frames = marked.buffer.frames :=
      marked.buffer.adapt_frames elapsedSecs
    have early : (marked.apply (.adapt elapsedSecs)).early = marked.early :=
      tidy.early_of_kept started fun f held => frames ▸ held
    rw [← same]
    refine ⟨buffered_apply started _, ?_, ?_⟩
    · rw [frames, early]
      exact tidy.recent
    · unfold Outlasts
      rw [frames, early]
      exact tidy.ordered
  | reset => cases goesOn

/-- Until playout has started every frame is early. -/
theorem early_apply_of_waiting {marked : Marked Pcm}
    (waiting : marked.buffer.nextPlayoutSeq = none) (op : JitterOp Pcm) :
    (marked.apply op).early = (marked.apply op).buffer.frames.map JitterFrame.seqNum := by
  unfold apply
  dsimp only
  rw [if_pos waiting]

/-- A push that fills in behind breaks the order. -/
theorem not_sorted_of_fillsBehind {marked : Marked Pcm} {op : JitterOp Pcm}
    (behind : marked.FillsBehind op) : ¬ (marked.apply op).Sorted := by
  cases op with
  | push seqNum pcm =>
    obtain ⟨none, started, alone⟩ := behind
    intro sorted
    have early : (marked.apply (.push seqNum pcm)).early = [] := by
      refine List.eq_nil_iff_forall_not_mem.mpr fun number member => ?_
      have before := ((mem_early_apply started).mp member).1
      rw [none] at before
      cases before
    have goesOn := (marked.buffer.push_nextPlayoutSeq seqNum pcm).trans started
    have ordered := (sorted seqNum goesOn early).ordered
    change (marked.buffer.push seqNum pcm).OrderedFrom seqNum at ordered
    obtain ⟨f, held, same⟩ := List.map_eq_singleton_iff.mp alone
    have distance : f.seqNum - seqNum = 32767 := by
      rw [same]
      exact add_sub_cancel_left seqNum 32767
    have accepts : marked.buffer.Accepts seqNum := by
      refine ⟨?_, ?_, ?_⟩
      · rw [JitterBuffer.isLate, started]
        dsimp only
        rw [sub_self]
        rfl
      · refine JitterBuffer.contains_eq_false.mpr fun g member here => ?_
        rw [held, List.mem_singleton] at member
        rw [← member, here, sub_self] at distance
        cases distance
      · rw [held]
        exact Nat.one_lt_succ_succ 6
    have place : marked.buffer.insertPos seqNum = 1 := by
      rw [JitterBuffer.insertPos, held, List.findIdx_cons, distance]
      rfl
    rcases (marked.buffer.push_cases seqNum pcm).2.2 with ⟨_, frames⟩ | ⟨refused, _⟩
    · rw [JitterBuffer.OrderedFrom, frames, held, place] at ordered
      have less := (List.pairwise_cons.mp ordered).1 ⟨seqNum, pcm⟩ List.mem_cons_self
      rw [ahead_self] at less
      exact Nat.not_lt_zero _ less
    · exact refused accepts
  | pop => exact behind.elim
  | adapt elapsedSecs => exact behind.elim
  | reset => exact behind.elim

/-! ## Runs -/

/-- **The buffered frames are sorted** in every state of a run in which all of them were
pushed after playout started, exactly when no push of the run fills in behind. -/
theorem sorted_iff (ops : List (JitterOp Pcm)) :
    (∀ done, done <+: ops → ((machine Pcm).run new done).Sorted) ↔
      (machine Pcm).Along (fun marked op => ¬ marked.FillsBehind op) new ops := by
  refine Machine.along_iff_of_implied (A := fun _ _ => True) (fun marked : Marked Pcm =>
      marked.buffer.NoDuplicates ∧
        ∀ next, marked.buffer.nextPlayoutSeq = some next → marked.Tidy next)
    Sorted ?_ ?_ ?_ ?_ ((machine Pcm).along_true new ops)
  · rintro marked ⟨_, tidy⟩ next started none
    exact (tidy next started).sortedFrom none
  · rintro marked op ⟨distinct, tidy⟩ _ passes
    refine ⟨JitterBuffer.noDuplicates_step marked.buffer op distinct, fun next' goesOn => ?_⟩
    cases started : marked.buffer.nextPlayoutSeq with
    | none => exact tidy_of_all_early (early_apply_of_waiting started op) next'
    | some next => exact (tidy next started).apply distinct started passes goesOn
  · rintro marked op _ _ sorted behind
    exact not_sorted_of_fillsBehind behind sorted
  · refine ⟨List.nodup_nil, fun next started => ?_⟩
    cases started

/-- A frame is played, one that lies as far ahead as can be comes, and then the one whose
turn it is. -/
def edge : List (JitterOp ℕ) := [.push 5 0, .pop, .push 32773 1, .push 6 2]

/-- **The frame whose turn it is goes behind** the one 32767 ahead of it. -/
theorem next_frame_behind :
    ¬ ∀ ops : List (JitterOp ℕ), ∀ done, done <+: ops →
      ((machine ℕ).run new done).Sorted := by
  intro claim
  have sorted := claim edge edge (List.prefix_refl _) 6 (by decide +kernel) (by decide +kernel)
  have ordered := sorted.ordered
  unfold JitterBuffer.OrderedFrom at ordered
  exact absurd ordered (by decide +kernel)

end Marked

end VoiceChat
