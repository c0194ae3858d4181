import Mathlib.Data.List.Forall2
import Mathlib.Data.List.ReduceOption
import Mathlib.Logic.Function.Basic
import VoiceChat.Jitter.Reordering

/-!
# Playout in order

A network may deliver the frames of a speech in any order and more than once. What a jitter
buffer gives out of them comes in the order of the speech, and nothing twice
(`Track.played_in_order`), however long the speech is: what it pops is a part of the speech
(`Track.popped_in_order`). All it takes is that no frame comes so early or so late that its
number of sixteen bits is mistaken: it is less than half the circle away from the frames that
still wait, and not further behind the one that was played last (`Track.Timely`). In a speech
of at most 32767 frames none does (`Track.inTime_of_short`).

`Track` keeps the places in the speech beside the buffer, which only knows the numbers.
-/

set_option autoImplicit false

namespace VoiceChat

open SerialNumber

/-- Lists that are related entry by entry can be built entry by entry. -/
theorem exists_forall₂ {α β : Type*} {R : α → β → Prop} {l : List β}
    (each : ∀ b ∈ l, ∃ a, R a b) : ∃ l', List.Forall₂ R l' l := by
  induction l with
  | nil => exact ⟨[], .nil⟩
  | cons b rest ih =>
    obtain ⟨a, first⟩ := each b List.mem_cons_self
    obtain ⟨l', others⟩ := ih fun b member => each b (List.mem_cons_of_mem _ member)
    exact ⟨a :: l', .cons first others⟩

/-- What is picked from a list at ascending places is a part of the list. -/
theorem exists_sublist_of_ascending {α β : Type*} {R : α → β → Prop} {whole : List α}
    {picked : List (ℕ × β)} (ascends : picked.Pairwise fun first second => first.1 < second.1)
    (each : ∀ pick ∈ picked, ∃ a, whole[pick.1]? = some a ∧ R a pick.2) :
    ∃ part : List α, part.Sublist whole ∧ List.Forall₂ R part (picked.map Prod.snd) := by
  have there : ∀ pick ∈ picked, ∃ place : Fin whole.length,
      place.val = pick.1 ∧ R whole[place] pick.2 := by
    intro pick member
    obtain ⟨a, inside, related⟩ := each pick member
    obtain ⟨bound, rfl⟩ := List.getElem?_eq_some_iff.mp inside
    exact ⟨⟨pick.1, bound⟩, rfl, related⟩
  obtain ⟨places, matched⟩ := exists_forall₂ there
  have numbers : places.map Fin.val = picked.map Prod.fst := by
    rw [← List.forall₂_eq_eq_eq, List.forall₂_map_left_iff, List.forall₂_map_right_iff]
    exact matched.imp fun _ _ both => both.1
  have ascends' : places.Pairwise (· < ·) := by
    have ascends' : (picked.map Prod.fst).Pairwise (· < ·) := List.pairwise_map.mpr ascends
    rwa [← numbers, List.pairwise_map] at ascends'
  refine ⟨places.map (whole[·]), List.map_getElem_sublist ascends', ?_⟩
  rw [List.forall₂_map_left_iff, List.forall₂_map_right_iff]
  exact matched.imp fun _ _ both => both.2

variable {Pcm : Type}

/-- What is not late lies at most half the circle ahead. -/
theorem JitterBuffer.ahead_le_of_isLate {jb : JitterBuffer Pcm} {next seqNum : UInt16}
    (started : jb.nextPlayoutSeq = some next) (timely : jb.isLate seqNum = false) :
    ahead next seqNum ≤ 32767 := by
  rw [isLate, started, decide_eq_false_iff_not] at timely
  exact Nat.le_of_not_lt fun far => timely (UInt16.lt_iff_toNat_lt.mpr far)

/-! ## Places and numbers -/

/-- The number of a place, when the first place has the first number. -/
def At (first : UInt16) (place : ℤ) (seqNum : UInt16) : Prop :=
  ((first.toNat : ℤ) + place) % 65536 = seqNum.toNat

namespace At

variable {first seqNum seqNum' : UInt16} {place place' : ℤ}

theorem ofNat (first : UInt16) (place : ℕ) : At first place (first + UInt16.ofNat place) := by
  rw [At, UInt16.toNat_add, UInt16.toNat_ofNat']
  omega

/-- A place has one number. -/
theorem unique (at_ : At first place seqNum) (at' : At first place seqNum') : seqNum = seqNum' := by
  unfold At at at_ at'
  exact UInt16.toNat_inj.mp (by omega)

/-- How far apart two numbers are around the circle is told by their places. -/
theorem ahead_eq (at_ : At first place seqNum) (at' : At first place' seqNum') :
    (ahead seqNum seqNum' : ℤ) = (place' - place) % 65536 := by
  have bound := seqNum.toNat_lt
  have bound' := seqNum'.toNat_lt
  unfold At at at_ at'
  rw [ahead, UInt16.toNat_sub]
  omega

theorem succ (at_ : At first place seqNum) : At first (place + 1) (seqNum + 1) := by
  have one : (1 : UInt16).toNat = 1 := rfl
  unfold At at at_ ⊢
  rw [UInt16.toNat_add, one]
  omega

/-- Places that lie whole circles apart have the same number. -/
theorem congr (at_ : At first place seqNum) (same : place' % 65536 = place % 65536) :
    At first place' seqNum := by
  unfold At at at_ ⊢
  omega

/-- Less than half the circle apart, the comparison that `push` makes is that of the places. -/
theorem comesAfter_iff {place place' : ℕ} (at_ : At first place seqNum)
    (at' : At first place' seqNum') (near : place' ≤ place + 32766)
    (near' : place ≤ place' + 32766) :
    (0 < seqNum' - seqNum && seqNum' - seqNum < 0xFFFF / 2) = true ↔ place < place' := by
  have distance : (seqNum' - seqNum).toNat = ahead seqNum seqNum' := rfl
  have places := at_.ahead_eq at'
  rw [Bool.and_eq_true, decide_eq_true_eq, decide_eq_true_eq, UInt16.lt_iff_toNat_lt,
    UInt16.lt_iff_toNat_lt, distance]
  change 0 < _ ∧ _ < 32767 ↔ _
  omega

end At

/-! ## The track of a speech -/

/-- A jitter buffer with the places in the speech of the frames in it and of the frame that
was played last. -/
structure Track (Pcm : Type) where
  buffer : JitterBuffer Pcm
  place : UInt16 → ℕ
  last : Option ℕ

namespace Track

/-- An operation, with the place of the frame that it pushes; it gives out the frames that
are played, with their places. -/
def apply (track : Track Pcm) : JitterOp Pcm × ℕ → Track Pcm × List (ℕ × Pcm)
  | (.push seqNum pcm, place) =>
    (⟨track.buffer.push seqNum pcm,
      if track.buffer.Accepts seqNum then Function.update track.place seqNum place
      else track.place, track.last⟩, [])
  | (.pop, _) =>
    match track.buffer.expected, track.buffer.pop.1 with
    | some e, some pcm =>
      (⟨track.buffer.pop.2, track.place, some (track.place e)⟩, [(track.place e, pcm)])
    | _, _ => (⟨track.buffer.pop.2, track.place, track.last⟩, [])
  | (.adapt elapsedSecs, _) =>
    (⟨track.buffer.adapt elapsedSecs, track.place, track.last⟩, [])
  | (.reset, _) => (⟨track.buffer.reset, track.place, track.last⟩, [])

def machine (Pcm : Type) : Machine (Track Pcm) (JitterOp Pcm × ℕ) (ℕ × Pcm) where
  step := apply

/-- A frame comes in time: less than half the circle away from the frames that wait, and not
further behind the one that was played last. -/
def Timely (track : Track Pcm) (place : ℕ) : Prop :=
  (∀ f ∈ track.buffer.frames, track.place f.seqNum ≤ place + 32766 ∧
    place ≤ track.place f.seqNum + 32766) ∧
  ∀ last, track.last = some last → last ≤ place + 32767

/-- Frames come under the numbers of their places, and the buffer is not reset. -/
def Labelled (first : UInt16) : JitterOp Pcm × ℕ → Prop
  | (.push seqNum _, place) => At first place seqNum
  | (.reset, _) => False
  | _ => True

/-- The operation is no reset. What it pushes was made of the frame at its place in the
speech, and is under the number of the place. -/
structure Carries {α : Type} (first : UInt16) (speech : List α) (made : α → Pcm → Prop)
    (input : JitterOp Pcm × ℕ) : Prop where
  labelled : Labelled first input
  pushes : ∀ seqNum pcm, input.1 = .push seqNum pcm →
    ∃ frame, speech[input.2]? = some frame ∧ made frame pcm

/-- A frame that is pushed comes in time. -/
def InTime (track : Track Pcm) : JitterOp Pcm × ℕ → Prop
  | (.push _ _, place) => track.Timely place
  | _ => True

/-- **The invariant.** The frames are under the numbers of their places. Before playout has
started they are in order, and close together. After that the playout position has a place
of its own, which lies beyond all that was played and at most half the circle before what
waits. -/
structure InStep (first : UInt16) (track : Track Pcm) : Prop where
  labelled : ∀ f ∈ track.buffer.frames, At first (track.place f.seqNum) f.seqNum
  distinct : track.buffer.NoDuplicates
  waiting : track.buffer.nextPlayoutSeq = none → track.last = none ∧
    (track.buffer.frames.Pairwise fun f g => track.place f.seqNum < track.place g.seqNum) ∧
    ∀ f ∈ track.buffer.frames, ∀ g ∈ track.buffer.frames,
      track.place g.seqNum ≤ track.place f.seqNum + 32766
  position : ∀ e, track.buffer.nextPlayoutSeq = some e → ∃ place : ℤ, At first place e ∧
    (∀ f ∈ track.buffer.frames, place ≤ track.place f.seqNum ∧
      track.place f.seqNum ≤ place + 32767) ∧
    ∀ last, track.last = some last → last < place ∧
      (track.buffer.frames = [] → place = last + 1)

namespace InStep

variable {first : UInt16} {track : Track Pcm}

/-- A push that is refused changes nothing. -/
theorem push_refused (inStep : track.InStep first) {seqNum : UInt16}
    (refused : ¬ track.buffer.Accepts seqNum) (pcm : Pcm) (place : ℕ) :
    (track.apply (.push seqNum pcm, place)).1.InStep first := by
  have same : (track.apply (.push seqNum pcm, place)).1 =
      ⟨track.buffer.push seqNum pcm, track.place, track.last⟩ := by
    rw [apply, if_neg refused]
  have frames := JitterBuffer.push_frames_of_not_accepts refused pcm
  have next := track.buffer.push_nextPlayoutSeq seqNum pcm
  rw [same]
  constructor
  · rw [frames]
    exact inStep.labelled
  · exact JitterBuffer.noDuplicates_step track.buffer (.push seqNum pcm) inStep.distinct
  · rw [frames, next]
    exact inStep.waiting
  · rw [frames, next]
    exact inStep.position

/-- Where the playout position is, when a frame is taken in: at most half the circle before
the frame, whatever else waits, and beyond all that was played. -/
theorem position_of_accepts (inStep : track.InStep first) {seqNum : UInt16} {place : ℕ}
    (labelled : At first place seqNum) (timely : track.Timely place)
    (accepts : track.buffer.Accepts seqNum) {e : UInt16}
    (started : track.buffer.nextPlayoutSeq = some e) :
    ∃ position : ℤ, At first position e ∧ (position ≤ place ∧ place ≤ position + 32767) ∧
      (∀ f ∈ track.buffer.frames, position ≤ track.place f.seqNum ∧
        track.place f.seqNum ≤ position + 32767) ∧
      ∀ last, track.last = some last → last < position := by
  obtain ⟨position, here, near, played⟩ := inStep.position e started
  have close := JitterBuffer.ahead_le_of_isLate started accepts.1
  have distance := here.ahead_eq labelled
  by_cases empty : track.buffer.frames = []
  · -- nothing waits: the position counts from the frame backwards
    refine ⟨place - ahead e seqNum, here.congr (by omega), ⟨by omega, by omega⟩, ?_, ?_⟩
    · rw [empty]
      exact List.forall_mem_nil _
    · intro last same
      have late := timely.2 last same
      have behind := (played last same).2 empty
      omega
  · obtain ⟨f, member⟩ := List.exists_mem_of_ne_nil _ empty
    have waits := near f member
    have window := timely.1 f member
    exact ⟨position, here, ⟨by omega, by omega⟩, near, fun last same => (played last same).1⟩

/-- A push that is accepted. -/
theorem push_accepted (inStep : track.InStep first) {seqNum : UInt16} {place : ℕ}
    (labelled : At first place seqNum) (timely : track.Timely place)
    (accepts : track.buffer.Accepts seqNum) (pcm : Pcm) :
    (track.apply (.push seqNum pcm, place)).1.InStep first := by
  have same : (track.apply (.push seqNum pcm, place)).1 =
      ⟨track.buffer.push seqNum pcm, Function.update track.place seqNum place, track.last⟩ := by
    rw [apply, if_pos accepts]
  have absent := JitterBuffer.contains_eq_false.mp accepts.2.1
  have kept : ∀ f ∈ track.buffer.frames,
      Function.update track.place seqNum place f.seqNum = track.place f.seqNum :=
    fun f member => Function.update_of_ne (absent f member) place track.place
  have new : Function.update track.place seqNum place seqNum = place :=
    Function.update_self seqNum place track.place
  have members : ∀ {f}, f ∈ (track.buffer.push seqNum pcm).frames →
      f = ⟨seqNum, pcm⟩ ∨ f ∈ track.buffer.frames := JitterBuffer.eq_or_mem_of_mem_push
  have next := track.buffer.push_nextPlayoutSeq seqNum pcm
  rw [same]
  constructor
  · intro f member
    dsimp only at member ⊢
    rcases members member with rfl | older
    · rwa [new]
    · rw [kept f older]
      exact inStep.labelled f older
  · exact JitterBuffer.noDuplicates_step track.buffer (.push seqNum pcm) inStep.distinct
  · dsimp only
    rw [next]
    intro idle
    obtain ⟨unplayed, ordered, close⟩ := inStep.waiting idle
    refine ⟨unplayed, ?_, fun f inside g inside' => ?_⟩
    · rcases (track.buffer.push_cases seqNum pcm).2.2 with ⟨_, frames⟩ | ⟨refused, _⟩
      · rw [frames]
        have comes : ∀ f ∈ track.buffer.frames, _ ↔ place < track.place f.seqNum :=
          fun f member => labelled.comesAfter_iff (inStep.labelled f member)
            (timely.1 f member).1 (timely.1 f member).2
        refine JitterBuffer.pairwise_insertIdx_findIdx (r := fun f g : JitterFrame Pcm =>
          Function.update track.place seqNum place f.seqNum <
            Function.update track.place seqNum place g.seqNum)
          (fun _ _ _ => Nat.lt_trans) ?_ ?_ ?_
        · refine ordered.imp_of_mem fun inside inside' less => ?_
          rwa [kept _ inside, kept _ inside']
        · intro f member before
          rw [new, kept f member]
          have different : track.place f.seqNum ≠ place := fun same =>
            absent f member ((same ▸ inStep.labelled f member).unique labelled)
          have least : ¬ place < track.place f.seqNum := fun less => by
            rw [(comes f member).mpr less] at before
            cases before
          omega
        · intro f member after
          rw [new, kept f member]
          exact (comes f member).mp after
      · exact absurd accepts refused
    · rcases members inside with rfl | older <;> rcases members inside' with rfl | older'
      · omega
      · rw [new, kept g older']
        exact (timely.1 g older').1
      · rw [new, kept f older]
        exact (timely.1 f older).2
      · rw [kept f older, kept g older']
        exact close f older g older'
  · dsimp only
    rw [next]
    intro e started
    obtain ⟨position, here, window, near, played⟩ :=
      inStep.position_of_accepts labelled timely accepts started
    refine ⟨position, here, fun f member => ?_, fun last same => ⟨played last same, ?_⟩⟩
    · rcases members member with rfl | older
      · rwa [new]
      · rw [kept f older]
        exact near f older
    · intro empty
      have inside := (JitterBuffer.push_frames_of_accepts accepts pcm).mem_iff.mpr
        List.mem_cons_self
      rw [empty] at inside
      cases inside

/-- A push of the speech that comes in time. -/
theorem push (inStep : track.InStep first) {seqNum : UInt16} {place : ℕ}
    (labelled : At first place seqNum) (timely : track.Timely place) (pcm : Pcm) :
    (track.apply (.push seqNum pcm, place)).1.InStep first := by
  by_cases accepts : track.buffer.Accepts seqNum
  · exact inStep.push_accepted labelled timely accepts pcm
  · exact inStep.push_refused accepts pcm place

/-- An adaptation does not concern the frames. -/
theorem adapt (inStep : track.InStep first) (elapsedSecs : ℚ) :
    InStep first ⟨track.buffer.adapt elapsedSecs, track.place, track.last⟩ where
  labelled := by
    rw [JitterBuffer.adapt_frames]
    exact inStep.labelled
  distinct := JitterBuffer.noDuplicates_step track.buffer (.adapt elapsedSecs) inStep.distinct
  waiting := by
    rw [JitterBuffer.adapt_frames, JitterBuffer.adapt_nextPlayoutSeq]
    exact inStep.waiting
  position := by
    rw [JitterBuffer.adapt_frames, JitterBuffer.adapt_nextPlayoutSeq]
    exact inStep.position

/-- The frame that a pop takes comes before all others, and after what was played. -/
theorem first_of_expected (inStep : track.InStep first) {f : JitterFrame Pcm}
    (inside : f ∈ track.buffer.frames) (expects : track.buffer.expected = some f.seqNum) :
    (∀ g ∈ track.buffer.frames, g.seqNum ≠ f.seqNum →
        track.place f.seqNum < track.place g.seqNum ∧
          track.place g.seqNum ≤ track.place f.seqNum + 32767) ∧
      ∀ last, track.last = some last → last < track.place f.seqNum := by
  cases started : track.buffer.nextPlayoutSeq with
  | none =>
    obtain ⟨unplayed, ordered, close⟩ := inStep.waiting started
    refine ⟨fun g member other => ⟨?_, (close f inside g member).trans (Nat.le_succ _)⟩, ?_⟩
    · rw [JitterBuffer.expected, started] at expects
      cases frames : track.buffer.frames with
      | nil =>
        rw [frames] at inside
        cases inside
      | cons head rest =>
        rw [frames] at expects ordered member
        dsimp only at expects
        split_ifs at expects
        rw [← Option.some.inj expects] at other ⊢
        rcases List.mem_cons.mp member with rfl | later
        · exact absurd rfl other
        · exact List.rel_of_pairwise_cons ordered later
    · intro last same
      rw [unplayed] at same
      cases same
  | some e =>
    rw [JitterBuffer.expected_of_started started (List.ne_nil_of_mem inside),
      Option.some.injEq] at expects
    subst expects
    obtain ⟨position, here, near, played⟩ := inStep.position f.seqNum started
    have distance := here.ahead_eq (inStep.labelled f inside)
    rw [ahead_self] at distance
    have window := near f inside
    refine ⟨fun g member other => ?_, fun last same => ?_⟩
    · have window' := near g member
      have apart : track.place g.seqNum ≠ track.place f.seqNum := fun same =>
        other ((same ▸ inStep.labelled g member).unique (inStep.labelled f inside))
      omega
    · have before := (played last same).1
      omega

/-- **A pop that gives out a frame** moves the playout position behind its place. -/
theorem pop_played (inStep : track.InStep first) {before after : List (JitterFrame Pcm)}
    {f : JitterFrame Pcm} (split : track.buffer.frames = before ++ f :: after)
    (expects : track.buffer.expected = some f.seqNum) :
    InStep first ⟨{ track.buffer with
      frames := before ++ after
      nextPlayoutSeq := some (f.seqNum + 1) }, track.place, some (track.place f.seqNum)⟩ := by
  have inside : f ∈ track.buffer.frames := by
    rw [split]
    exact List.mem_append_right _ List.mem_cons_self
  have part : (before ++ after).Sublist track.buffer.frames := by
    rw [split]
    exact (List.Sublist.refl before).append (List.sublist_cons_self f after)
  have other : ∀ g ∈ before ++ after, g.seqNum ≠ f.seqNum := by
    have alone := inStep.distinct
    rw [JitterBuffer.NoDuplicates, split, List.map_append, List.map_cons, List.nodup_middle,
      List.nodup_cons, ← List.map_append] at alone
    exact fun g member same => alone.1 (same ▸ List.mem_map_of_mem member)
  obtain ⟨nearest, _⟩ := inStep.first_of_expected inside expects
  refine ⟨fun g member => inStep.labelled g (part.subset member),
    inStep.distinct.sublist (part.map _), (fun idle => by cases idle), ?_⟩
  rintro _ ⟨⟩
  refine ⟨track.place f.seqNum + 1, (inStep.labelled f inside).succ, fun g member => ?_, ?_⟩
  · obtain ⟨later, near⟩ := nearest g (part.subset member) (other g member)
    dsimp only
    omega
  · rintro _ ⟨⟩
    exact ⟨by omega, fun _ => rfl⟩

/-- A pop that misses its frame moves the playout position on. -/
theorem pop_missed (inStep : track.InStep first) {e : UInt16}
    (expects : track.buffer.expected = some e)
    (missing : ∀ g ∈ track.buffer.frames, g.seqNum ≠ e) :
    InStep first ⟨{ track.buffer with nextPlayoutSeq := some (e + 1) }, track.place,
      track.last⟩ := by
  have nonempty : track.buffer.frames ≠ [] := by
    intro empty
    rw [JitterBuffer.expected, empty] at expects
    cases expects
  have started : track.buffer.nextPlayoutSeq = some e := by
    cases position : track.buffer.nextPlayoutSeq with
    | none =>
      rw [JitterBuffer.expected, position] at expects
      cases frames : track.buffer.frames with
      | nil => exact absurd frames nonempty
      | cons head rest =>
        rw [frames] at expects missing
        dsimp only at expects
        split_ifs at expects
        exact absurd (Option.some.inj expects) (missing head List.mem_cons_self)
    | some next => rwa [JitterBuffer.expected_of_started position nonempty] at expects
  obtain ⟨position, here, near, played⟩ := inStep.position e started
  refine ⟨inStep.labelled, inStep.distinct, (fun idle => by cases idle), ?_⟩
  rintro _ ⟨⟩
  refine ⟨position + 1, here.succ, fun g member => ?_, fun last same => ⟨?_, ?_⟩⟩
  · have window := near g member
    have apart : (track.place g.seqNum : ℤ) ≠ position := fun same =>
      missing g member ((same ▸ inStep.labelled g member).unique here)
    dsimp only
    omega
  · exact (played last same).1.trans (Int.lt_succ position)
  · exact fun empty => absurd empty nonempty

/-- **One operation** keeps the invariant; a frame that it gives out was waiting, under its
place, and comes after all that was played. -/
theorem step (inStep : track.InStep first) {input : JitterOp Pcm × ℕ}
    (labelled : Labelled first input) (inTime : track.InTime input) :
    (track.apply input).1.InStep first ∧
      ((track.apply input).2 = [] ∧ (track.apply input).1.last = track.last ∨
        ∃ f ∈ track.buffer.frames, (track.apply input).2 = [(track.place f.seqNum, f.pcm)] ∧
          (track.apply input).1.last = some (track.place f.seqNum) ∧
          ∀ last, track.last = some last → last < track.place f.seqNum) := by
  obtain ⟨op, place⟩ := input
  cases op with
  | push seqNum pcm => exact ⟨inStep.push labelled inTime pcm, Or.inl ⟨rfl, rfl⟩⟩
  | adapt elapsedSecs => exact ⟨inStep.adapt elapsedSecs, Or.inl ⟨rfl, rfl⟩⟩
  | reset => exact absurd labelled id
  | pop =>
    rw [apply]
    rcases track.buffer.pop_cases with ⟨idle, same⟩ |
      ⟨_, before, f, after, expects, split, rfl, _, popped⟩ | ⟨e, expects, missing, missed⟩
    · rw [idle, same]
      exact ⟨inStep, Or.inl ⟨rfl, rfl⟩⟩
    · rw [expects, popped]
      have inside : f ∈ track.buffer.frames := by
        rw [split]
        exact List.mem_append_right _ List.mem_cons_self
      exact ⟨inStep.pop_played split expects,
        Or.inr ⟨f, inside, rfl, rfl, (inStep.first_of_expected inside expects).2⟩⟩
    · rw [expects, missed]
      exact ⟨inStep.pop_missed expects missing, Or.inl ⟨rfl, rfl⟩⟩

end InStep

/-- A buffer of which nothing was played yet. -/
def start (jb : JitterBuffer Pcm) : Track Pcm := ⟨jb, fun _ => 0, none⟩

/-- An empty buffer is in step with any speech. -/
theorem inStep_start (first : UInt16) {jb : JitterBuffer Pcm} (empty : jb.frames = []) :
    InStep first (start jb) where
  labelled := by
    dsimp only [start]
    rw [empty]
    exact List.forall_mem_nil _
  distinct := by
    dsimp only [start]
    rw [JitterBuffer.NoDuplicates, empty]
    exact List.nodup_nil
  waiting _ := by
    dsimp only [start]
    rw [empty]
    exact ⟨rfl, List.Pairwise.nil, List.forall_mem_nil _⟩
  position e _ := by
    dsimp only [start]
    rw [empty]
    refine ⟨ahead first e, ?_, List.forall_mem_nil _, fun last same => by cases same⟩
    have bound := e.toNat_lt
    have bound' := first.toNat_lt
    rw [At, ahead, UInt16.toNat_sub]
    omega

/-- One operation on a track is that on its buffer. -/
theorem apply_eq (track : Track Pcm) (input : JitterOp Pcm × ℕ) :
    (track.apply input).1.buffer = ((jitterMachine Pcm).step track.buffer input.1).1 ∧
      (track.apply input).2.map Prod.snd =
        ((jitterMachine Pcm).step track.buffer input.1).2.reduceOption := by
  obtain ⟨op, place⟩ := input
  cases op with
  | push seqNum pcm => exact ⟨rfl, rfl⟩
  | adapt elapsedSecs => exact ⟨rfl, rfl⟩
  | reset => exact ⟨rfl, rfl⟩
  | pop =>
    rw [apply]
    dsimp only [jitterMachine]
    rcases track.buffer.pop_cases with ⟨idle, same⟩ |
      ⟨_, before, f, after, expects, split, rfl, _, popped⟩ | ⟨e, expects, missing, missed⟩
    · rw [idle, same]
      exact ⟨rfl, rfl⟩
    · rw [expects, popped]
      exact ⟨rfl, rfl⟩
    · rw [expects, missed]
      exact ⟨rfl, rfl⟩

/-- The track gives out what the buffer pops. -/
theorem outputs_eq (track : Track Pcm) (inputs : List (JitterOp Pcm × ℕ)) :
    ((machine Pcm).outputs track inputs).map Prod.snd =
      (track.buffer.popped (inputs.map Prod.fst)).reduceOption := by
  induction inputs generalizing track with
  | nil => rfl
  | cons input rest ih =>
    obtain ⟨buffer, played⟩ := track.apply_eq input
    have later := ih (track.apply input).1
    rw [buffer] at later
    rw [Machine.outputs_cons, List.map_append]
    refine (congrArg₂ (· ++ ·) played later).trans ?_
    exact (List.reduceOption_append _ _).symm

/-- What waits after an operation has waited before, or was pushed under its place. -/
theorem waits_of_apply (track : Track Pcm) {input : JitterOp Pcm × ℕ} {f : JitterFrame Pcm}
    (member : f ∈ (track.apply input).1.buffer.frames) :
    (f ∈ track.buffer.frames ∧ (track.apply input).1.place f.seqNum = track.place f.seqNum) ∨
      input = (.push f.seqNum f.pcm, (track.apply input).1.place f.seqNum) := by
  rw [(track.apply_eq input).1] at member
  obtain ⟨op, place⟩ := input
  cases op with
  | push seqNum pcm =>
    dsimp only [jitterMachine] at member
    rw [apply]
    dsimp only
    split_ifs with accepts
    · rcases JitterBuffer.eq_or_mem_of_mem_push member with rfl | older
      · exact Or.inr (congrArg _ (Function.update_self seqNum place track.place).symm)
      · have other := JitterBuffer.contains_eq_false.mp accepts.2.1 f older
        exact Or.inl ⟨older, Function.update_of_ne other place track.place⟩
    · rw [JitterBuffer.push_frames_of_not_accepts accepts] at member
      exact Or.inl ⟨member, rfl⟩
  | pop =>
    refine Or.inl ⟨track.buffer.pop_frames_sublist.subset member, ?_⟩
    rw [apply]
    split <;> rfl
  | adapt elapsedSecs =>
    dsimp only [jitterMachine] at member
    rw [JitterBuffer.adapt_frames] at member
    exact Or.inl ⟨member, rfl⟩
  | reset => cases member

/-- **Playout in order.** Whatever is pushed in time, in whatever order and however often, the
frames that are played come in the order of their places, and none of them twice. Each was
waiting, or was pushed under its place. -/
theorem played_in_order {first : UInt16} {inputs : List (JitterOp Pcm × ℕ)} {track : Track Pcm}
    (inStep : track.InStep first) (labelled : ∀ input ∈ inputs, Labelled first input)
    (inTime : (machine Pcm).Along InTime track inputs) :
    ((machine Pcm).outputs track inputs).Pairwise (fun first second => first.1 < second.1) ∧
      ∀ played ∈ (machine Pcm).outputs track inputs,
        (∀ last, track.last = some last → last < played.1) ∧
        ((∃ f ∈ track.buffer.frames, (track.place f.seqNum, f.pcm) = played) ∨
          ∃ seqNum, (.push seqNum played.2, played.1) ∈ inputs) := by
  induction inputs generalizing track with
  | nil => exact ⟨List.Pairwise.nil, List.forall_mem_nil _⟩
  | cons input rest ih =>
    obtain ⟨inStep', given⟩ := inStep.step (labelled input List.mem_cons_self) inTime.1
    obtain ⟨ordered, origins⟩ :=
      ih inStep' (fun input member => labelled input (List.mem_cons_of_mem _ member)) inTime.2
    have origin : ∀ played ∈ (machine Pcm).outputs (track.apply input).1 rest,
        (∃ f ∈ track.buffer.frames, (track.place f.seqNum, f.pcm) = played) ∨
          ∃ seqNum, (.push seqNum played.2, played.1) ∈ input :: rest := by
      intro played member
      rcases (origins played member).2 with ⟨f, waits, rfl⟩ | ⟨seqNum, later⟩
      · rcases track.waits_of_apply waits with ⟨waits', same⟩ | pushed
        · exact Or.inl ⟨f, waits', by rw [same]⟩
        · exact Or.inr ⟨f.seqNum, pushed ▸ List.mem_cons_self⟩
      · exact Or.inr ⟨seqNum, List.mem_cons_of_mem _ later⟩
    rw [Machine.outputs_cons]
    change ((track.apply input).2 ++ _).Pairwise _ ∧ ∀ played ∈ (track.apply input).2 ++ _, _
    rcases given with ⟨silent, last⟩ | ⟨f, waits, one, last, beyond⟩
    · rw [silent, List.nil_append]
      refine ⟨ordered, fun played member => ⟨?_, origin played member⟩⟩
      rw [← last]
      exact (origins played member).1
    · rw [one, List.singleton_append]
      have after : ∀ played ∈ (machine Pcm).outputs (track.apply input).1 rest,
          track.place f.seqNum < played.1 :=
        fun played member => (origins played member).1 _ last
      refine ⟨List.pairwise_cons.mpr ⟨after, ordered⟩, fun played member => ?_⟩
      rcases List.mem_cons.mp member with rfl | later
      · exact ⟨beyond, Or.inl ⟨f, waits, rfl⟩⟩
      · exact ⟨fun last same => (beyond last same).trans (after played later),
          origin played later⟩

/-- **What an empty buffer pops of a speech**, when all that is pushed comes in time, is a part
of the speech. -/
theorem popped_in_order {α : Type} {first : UInt16} {speech : List α} {made : α → Pcm → Prop}
    {jb : JitterBuffer Pcm} (empty : jb.frames = []) {inputs : List (JitterOp Pcm × ℕ)}
    (carries : ∀ input ∈ inputs, Carries first speech made input)
    (inTime : (machine Pcm).Along InTime (start jb) inputs) :
    ∃ heard : List α, heard.Sublist speech ∧
      List.Forall₂ made heard (jb.popped (inputs.map Prod.fst)).reduceOption := by
  have outputs := outputs_eq (start jb) inputs
  obtain ⟨ordered, origins⟩ := played_in_order (inStep_start first empty)
    (fun input member => (carries input member).labelled) inTime
  change _ = (jb.popped _).reduceOption at outputs
  rw [← outputs]
  refine exists_sublist_of_ascending ordered fun played member => ?_
  rcases (origins played member).2 with ⟨f, waits, _⟩ | ⟨seqNum, pushed⟩
  · change f ∈ jb.frames at waits
    rw [empty] at waits
    cases waits
  · exact (carries _ pushed).pushes seqNum played.2 rfl

/-! ## Short speeches -/

/-- All places so far lie before a bound. -/
structure Within (bound : ℕ) (track : Track Pcm) : Prop where
  waits : ∀ f ∈ track.buffer.frames, track.place f.seqNum < bound
  played : ∀ last, track.last = some last → last < bound

/-- Places before a bound of half the circle are never far from each other. -/
theorem Within.timely {bound : ℕ} {track : Track Pcm} (within : track.Within bound)
    (short : bound ≤ 32767) {place : ℕ} (inside : place < bound) : track.Timely place := by
  refine ⟨fun f member => ?_, fun last same => ?_⟩
  · have before := within.waits f member
    omega
  · have before := within.played last same
    omega

/-- **In a short speech every frame comes in time**, whatever the network does to it. -/
theorem inTime_of_short {first : UInt16} {bound : ℕ} (short : bound ≤ 32767)
    {inputs : List (JitterOp Pcm × ℕ)} {track : Track Pcm} (inStep : track.InStep first)
    (within : track.Within bound) (labelled : ∀ input ∈ inputs, Labelled first input)
    (inside : ∀ input ∈ inputs, ∀ seqNum pcm, input.1 = .push seqNum pcm → input.2 < bound) :
    (machine Pcm).Along InTime track inputs := by
  induction inputs generalizing track with
  | nil => trivial
  | cons input rest ih =>
    have now := inside input List.mem_cons_self
    have inTime : track.InTime input := by
      obtain ⟨op, place⟩ := input
      cases op with
      | push seqNum pcm => exact within.timely short (now seqNum pcm rfl)
      | pop | adapt _ | reset => trivial
    obtain ⟨inStep', given⟩ := inStep.step (labelled input List.mem_cons_self) inTime
    have within' : (track.apply input).1.Within bound := by
      refine ⟨fun f member => ?_, ?_⟩
      · rcases track.waits_of_apply member with ⟨waited, same⟩ | pushed
        · exact same ▸ within.waits f waited
        · rw [pushed] at now
          exact now f.seqNum f.pcm rfl
      · rcases given with ⟨_, last⟩ | ⟨f, waited, _, last, _⟩
        · rw [last]
          exact within.played
        · rw [last]
          rintro _ ⟨⟩
          exact within.waits f waited
    exact ⟨inTime, ih inStep' within'
      (fun input member => labelled input (List.mem_cons_of_mem _ member))
      fun input member => inside input (List.mem_cons_of_mem _ member)⟩

/-- Of a short speech, all that an empty buffer is given comes in time. -/
theorem inTime_of_carries {α : Type} {first : UInt16} {speech : List α} {made : α → Pcm → Prop}
    (short : speech.length ≤ 32767) {jb : JitterBuffer Pcm} (empty : jb.frames = [])
    {inputs : List (JitterOp Pcm × ℕ)}
    (carries : ∀ input ∈ inputs, Carries first speech made input) :
    (machine Pcm).Along InTime (start jb) inputs := by
  have within : Within speech.length (start jb) := by
    refine ⟨fun f waits => ?_, fun last same => by cases same⟩
    change f ∈ jb.frames at waits
    rw [empty] at waits
    cases waits
  refine inTime_of_short short (inStep_start first empty) within
    (fun input member => (carries input member).labelled) fun input member seqNum pcm pushed => ?_
  obtain ⟨frame, there, _⟩ := (carries input member).pushes seqNum pcm pushed
  exact (List.getElem?_eq_some_iff.mp there).1

end Track

end VoiceChat
