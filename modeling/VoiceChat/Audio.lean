import VoiceChat.Codec
import VoiceChat.Latency
import VoiceChat.Library.Blocks
import VoiceChat.Library.RingBuffer

/-!
# Audio devices

The callbacks of the devices run on threads of their own and share a ring buffer each
with the session. The capture callback mixes the channels down to one and pushes the
result; the playout callback pops samples and copies each to all channels, and fills up
with silence. Both look first whether the session is still running.

A capture callback that finds no room counts the samples it drops and reports the count,
but not again within two seconds. However the callbacks and the reads of the session
alternate, the reports and the count that is still open account for every dropped sample
once (`reports_account`).
-/

set_option autoImplicit false

namespace VoiceChat

/-- Desired buffer size in samples, a hint to the device. -/
def desiredBufferSamples : UInt32 := 96
/-- Ring buffer capacity in samples. -/
def ringBufferCapacity : Nat := 9600
/-- How many samples an iteration of the session reads at most. -/
def tempBufSamples : Nat := 4800

inductive BufferSize where
  | default
  | fixed (frames : UInt32)
  deriving DecidableEq

structure StreamConfig where
  channels : UInt16
  sampleRate : Nat
  bufferSize : BufferSize
  deriving DecidableEq

def buildStreamConfig (channels : UInt16) (bufferSize : BufferSize) : StreamConfig :=
  ⟨channels, sampleRate, bufferSize⟩

/-- Build a list of configs to try, from most preferred to least. -/
def candidateConfigs (deviceDefault : Option StreamConfig) : List StreamConfig :=
  -- a low-latency buffer is preferred to the default, one channel to two, two to many
  let mono := [buildStreamConfig 1 (.fixed desiredBufferSamples), buildStreamConfig 1 .default]
  match deviceDefault with
  | none => mono
  | some dev =>
    if dev.channels > 1 then
      let stereo :=
        [buildStreamConfig 2 (.fixed desiredBufferSamples), buildStreamConfig 2 .default]
      if dev.channels ≠ 2 then
        mono ++ stereo ++
          [buildStreamConfig dev.channels (.fixed desiredBufferSamples),
            buildStreamConfig dev.channels .default]
      else
        mono ++ stereo
    else
      mono

/-- What the callback of an input stream remembers. -/
structure Overflow where
  overflowSamples : Nat
  overflowLogTime : Option Instant
  deriving DecidableEq

/-- A callback that has run into no overflow yet. -/
def Overflow.start : Overflow := ⟨0, none⟩

/-- Count dropped samples. The count is logged and starts again, unless it was logged
less than two seconds ago. -/
def Overflow.count (overflow : Overflow) (now : Instant) (dropped : Nat) :
    Overflow × Option Nat :=
  let overflowSamples := overflow.overflowSamples + dropped
  let shouldLog := (overflow.overflowLogTime.map fun t => decide (now - t ≥ 2 * 10 ^ 9)).getD true
  if shouldLog then
    (⟨0, some now⟩, some overflowSamples)
  else
    (⟨overflowSamples, overflow.overflowLogTime⟩, none)

/-- Downmix channels to one by averaging. A single channel is taken as it is. -/
def downmix (fl : Rounding f32) (channels : Nat) (data : List Sample) : List Sample :=
  if channels = 1 then data
  else (cut channels data).1.map fun frame => fl.round (fl.sum frame / channels)

section Callbacks

variable {B : Type} (fl : Rounding f32) (ring : RingBuffer Sample B) (channels : Nat)

/-- The callback of an input stream: the buffer and the count after it, and what it
logs. -/
def inputCb (prod : B) (overflow : Overflow) (running : Bool) (now : Instant)
    (data : List Sample) : B × Overflow × Option Nat :=
  if !running then
    (prod, overflow, none)
  else
    let mono := downmix fl channels data
    let (written, prod) := ring.pushSlice prod mono
    if written < mono.length then
      let (overflow, logged) := overflow.count now (mono.length - written)
      (prod, overflow, logged)
    else
      (prod, overflow, none)

/-- The callback of an output stream: the buffer after it, and what it makes of the
samples it is to fill. -/
def outputCb (cons : B) (running : Bool) (data : List Sample) : B × List Sample :=
  if !running then
    (cons, data.map fun _ => 0)
  else if channels = 1 then
    let (popped, cons) := ring.popSlice cons data.length
    (cons, popped ++ List.replicate (data.length - popped.length) 0)
  else
    let monoFrames := data.length / channels
    let (popped, cons) := ring.popSlice cons monoFrames
    let mono := (List.range monoFrames).map fun i => (popped[i]?).getD 0
    -- samples after the last whole frame stay as they were
    (cons, (mono.flatMap fun sample => List.replicate channels sample) ++
      data.drop (monoFrames * channels))

end Callbacks

/-! ## What is tried -/

/-- Every config that is tried has a channel and the sample rate of the codec. -/
theorem of_mem_candidateConfigs {deviceDefault : Option StreamConfig} {config : StreamConfig}
    (member : config ∈ candidateConfigs deviceDefault) :
    0 < config.channels ∧ config.sampleRate = sampleRate := by
  unfold candidateConfigs buildStreamConfig at member
  cases deviceDefault with
  | none =>
    simp only [List.mem_cons, List.not_mem_nil, or_false] at member
    rcases member with rfl | rfl <;> exact ⟨by decide, rfl⟩
  | some dev =>
    dsimp only at member
    split_ifs at member with many other
    · simp only [List.mem_append, List.mem_cons, List.not_mem_nil, or_false] at member
      have some : 0 < dev.channels := UInt16.lt_trans (by decide) many
      rcases member with ((rfl | rfl) | (rfl | rfl)) | (rfl | rfl)
      all_goals first | exact ⟨some, rfl⟩ | exact ⟨by decide, rfl⟩
    · simp only [List.mem_append, List.mem_cons, List.not_mem_nil, or_false] at member
      rcases member with (rfl | rfl) | (rfl | rfl) <;> exact ⟨by decide, rfl⟩
    · simp only [List.mem_cons, List.not_mem_nil, or_false] at member
      rcases member with rfl | rfl <;> exact ⟨by decide, rfl⟩

/-! ## What is dropped -/

/-- A count is logged when none was logged in the last two seconds, and kept
otherwise. -/
theorem Overflow.count_cases (overflow : Overflow) (now : Instant) (dropped : Nat) :
    (∀ t ∈ overflow.overflowLogTime, t + 2 * 10 ^ 9 ≤ now) ∧
        overflow.count now dropped =
          (⟨0, some now⟩, some (overflow.overflowSamples + dropped)) ∨
      ∃ t, overflow.overflowLogTime = some t ∧ now < t + 2 * 10 ^ 9 ∧
        overflow.count now dropped = (⟨overflow.overflowSamples + dropped, some t⟩, none) := by
  obtain ⟨samples, last⟩ := overflow
  cases last with
  | none => exact Or.inl ⟨(by simp), rfl⟩
  | some t =>
    by_cases due : now - t ≥ 2 * 10 ^ 9
    · refine Or.inl ⟨fun t' member => ?_, ?_⟩
      · obtain rfl := Option.some.inj member
        unfold Instant at *
        omega
      · simpa [count] using due
    · refine Or.inr ⟨t, rfl, ?_, ?_⟩
      · unfold Instant at *
        omega
      · simpa [count] using due

/-- An input stream: its buffer, and what its callback remembers. -/
structure InputStream (B : Type) where
  prod : B
  overflow : Overflow

namespace InputStream

/-- What happens to the buffer of an input stream: a callback of the device, or a read
of the session. -/
inductive Event where
  | callback (running : Bool) (now : Instant) (data : List Sample)
  | read (size : Nat)

variable {B : Type} (fl : Rounding f32) (ring : RingBuffer Sample B) (channels : Nat)

/-- What an event asks of the buffer. -/
def Event.operations : Event → List (RingBuffer.Operation Sample)
  | .callback running _ data => if running then [.push (downmix fl channels data)] else []
  | .read size => [.pop size]

/-- An input stream under a sequence of events. It puts out the counts that are logged,
with their times. -/
def machine : Machine (InputStream B) Event (Instant × Nat) where
  step
    | stream, .callback running now data =>
        let (prod, overflow, logged) :=
          inputCb fl ring channels stream.prod stream.overflow running now data
        (⟨prod, overflow⟩, (logged.map fun dropped => (now, dropped)).toList)
    | stream, .read size => (⟨(ring.popSlice stream.prod size).2, stream.overflow⟩, [])

/-- How many samples are dropped at an event. -/
def dropped (stream : InputStream B) (event : Event) : Nat :=
  (ring.refused stream.prod (event.operations fl channels)).length

theorem step_prod (stream : InputStream B) (event : Event) :
    ((machine fl ring channels).step stream event).1.prod =
      ring.machine.run stream.prod (event.operations fl channels) := by
  cases event with
  | read size => rfl
  | callback running now data =>
    cases running with
    | false => rfl
    | true =>
      simp only [machine, inputCb, Bool.not_true, Bool.false_eq_true, if_false,
        Event.operations, if_true]
      split_ifs <;> rfl

/-- What an event does to the count: nothing is dropped, or the count grows and is
logged, or it grows and was logged less than two seconds ago. -/
inductive Counted (stream : InputStream B) (event : Event) (overflow : Overflow)
    (logged : List (Instant × Nat)) : Prop where
  | fits (nothing : dropped fl ring channels stream event = 0)
      (same : overflow = stream.overflow) (silent : logged = [])
  | reported (now : Instant) (data : List Sample) (happened : event = .callback true now data)
      (some : 0 < dropped fl ring channels stream event)
      (due : ∀ t ∈ stream.overflow.overflowLogTime, t + 2 * 10 ^ 9 ≤ now)
      (restarted : overflow = ⟨0, Option.some now⟩)
      (report : logged =
        [(now, stream.overflow.overflowSamples + dropped fl ring channels stream event)])
  | kept (now t : Instant) (data : List Sample) (happened : event = .callback true now data)
      (last : stream.overflow.overflowLogTime = Option.some t)
      (recent : now < t + 2 * 10 ^ 9)
      (grown : overflow = ⟨stream.overflow.overflowSamples +
        dropped fl ring channels stream event, Option.some t⟩)
      (silent : logged = [])

theorem step_counted (stream : InputStream B) (event : Event) :
    Counted fl ring channels stream event
      ((machine fl ring channels).step stream event).1.overflow
      ((machine fl ring channels).step stream event).2 := by
  cases event with
  | read size => exact .fits rfl rfl rfl
  | callback running now data =>
    cases running with
    | false => exact .fits rfl rfl rfl
    | true =>
      have drops : dropped fl ring channels stream (.callback true now data) =
          (downmix fl channels data).length -
            (ring.pushSlice stream.prod (downmix fl channels data)).1 := by
        change ((List.drop _ _) ++ []).length = _
        rw [List.append_nil, List.length_drop]
      by_cases less : (ring.pushSlice stream.prod (downmix fl channels data)).1 <
          (downmix fl channels data).length
      · have some : 0 < dropped fl ring channels stream (.callback true now data) := by omega
        have step : (machine fl ring channels).step stream (.callback true now data) =
            (⟨(ring.pushSlice stream.prod (downmix fl channels data)).2,
              (stream.overflow.count now (dropped fl ring channels stream
                (.callback true now data))).1⟩,
              ((stream.overflow.count now (dropped fl ring channels stream
                (.callback true now data))).2.map fun count => (now, count)).toList) := by
          rw [drops]
          simp only [machine, inputCb, Bool.not_true, Bool.false_eq_true, if_false, if_pos less]
        rw [step]
        rcases stream.overflow.count_cases now (dropped fl ring channels stream
            (.callback true now data)) with ⟨due, counted⟩ | ⟨t, last, recent, counted⟩
        · rw [counted]
          exact .reported now data rfl some due rfl rfl
        · rw [counted]
          exact .kept now t data rfl last recent rfl rfl
      · have step : (machine fl ring channels).step stream (.callback true now data) =
            (⟨(ring.pushSlice stream.prod (downmix fl channels data)).2, stream.overflow⟩, []) := by
          simp only [machine, inputCb, Bool.not_true, Bool.false_eq_true, if_false, if_neg less,
            Option.map_none, Option.toList_none]
        rw [step]
        exact .fits (by omega) rfl rfl

/-! ## What is reported -/

/-- The reports of an event come two seconds after the last one, and the next ones count
from the last of them. -/
theorem step_times (stream : InputStream B) (event : Event) (later : List Instant) :
    (stream.overflow.overflowLogTime.toList ++
        (((machine fl ring channels).step stream event).2.map Prod.fst ++ later)).IsChain
          (fun t t' => t + 2 * 10 ^ 9 ≤ t') ↔
      (((machine fl ring channels).step stream event).1.overflow.overflowLogTime.toList ++
        later).IsChain fun t t' => t + 2 * 10 ^ 9 ≤ t' := by
  obtain ⟨_, same, silent⟩ | ⟨now, _, _, _, due, restarted, report⟩ | ⟨_, t, _, _, last, _, grown, silent⟩ :=
    step_counted fl ring channels stream event
  · rw [same, silent]
    rfl
  · rw [restarted, report]
    cases last : stream.overflow.overflowLogTime with
    | none => rfl
    | some t => simpa using fun _ : List.IsChain _ (now :: later) => due t last
  · rw [grown, silent, last]
    rfl

/-- What is reported and counted grows by what is dropped. -/
theorem step_account (stream : InputStream B) (event : Event) :
    (((machine fl ring channels).step stream event).2.map Prod.snd).sum +
        ((machine fl ring channels).step stream event).1.overflow.overflowSamples =
      stream.overflow.overflowSamples + dropped fl ring channels stream event := by
  obtain ⟨nothing, same, silent⟩ | ⟨_, _, _, _, _, restarted, report⟩ | ⟨_, _, _, _, _, _, grown, silent⟩ :=
    step_counted fl ring channels stream event
  · rw [same, silent, nothing]
    exact Nat.zero_add _
  · rw [restarted, report]
    rfl
  · rw [grown, silent]
    exact Nat.zero_add _

theorem run_account (stream : InputStream B) (events : List Event) :
    (((machine fl ring channels).outputs stream events).map Prod.snd).sum +
        ((machine fl ring channels).run stream events).overflow.overflowSamples =
      stream.overflow.overflowSamples +
        (ring.refused stream.prod (events.flatMap (Event.operations fl channels))).length := by
  induction events generalizing stream with
  | nil => exact Nat.zero_add _
  | cons event rest ih =>
    have now := step_account fl ring channels stream event
    have later := ih ((machine fl ring channels).step stream event).1
    rw [step_prod] at later
    rw [Machine.outputs_cons, Machine.run_cons, List.map_append, List.sum_append,
      List.flatMap_cons, RingBuffer.refused, Machine.outputs_append, List.length_append,
      Machine.run_observe, ← Nat.add_assoc, ← RingBuffer.refused, ← RingBuffer.refused]
    change _ = stream.overflow.overflowSamples + dropped fl ring channels stream event + _
    omega

theorem run_times (stream : InputStream B) (events : List Event) :
    (stream.overflow.overflowLogTime.toList ++
      ((machine fl ring channels).outputs stream events).map Prod.fst).IsChain
        fun t t' => t + 2 * 10 ^ 9 ≤ t' := by
  induction events generalizing stream with
  | nil => cases last : stream.overflow.overflowLogTime <;> simp
  | cons event rest ih =>
    rw [Machine.outputs_cons, List.map_append, step_times]
    exact ih _

variable {fl ring channels} in
/-- The callback remembers a time at which it reported. -/
theorem mem_reports_of_mem_logTime {stream : InputStream B} (start : stream.overflow = .start)
    {events : List Event} {t : Instant}
    (last : t ∈ ((machine fl ring channels).run stream events).overflow.overflowLogTime) :
    t ∈ ((machine fl ring channels).outputs stream events).map Prod.fst := by
  have remembered := Machine.invariant_outputs (M := machine fl ring channels)
    (fun stream reports => ∀ t ∈ stream.overflow.overflowLogTime, t ∈ reports.map Prod.fst)
    (fun stream reports event held _ t last => by
      rw [List.map_append, List.mem_append]
      obtain ⟨_, same, _⟩ | ⟨_, _, _, _, _, restarted, report⟩ | ⟨_, _, _, _, last', _, grown, _⟩ :=
        step_counted fl ring channels stream event
      · exact Or.inl (held t (same ▸ last))
      · rw [restarted] at last
        rw [report]
        exact Or.inr (by simpa using (Option.some.inj last).symm)
      · rw [grown, ← last'] at last
        exact Or.inl (held t last))
    (s := stream) (by rw [start]; simp [Overflow.start] : ∀ t ∈ stream.overflow.overflowLogTime,
      t ∈ ([] : List (Instant × Nat)).map Prod.fst)
    (Machine.along_true _ stream events)
  exact remembered t last

/-- **The reports account for every dropped sample**, in whatever order the device and
the session use the buffer: what was reported and what is counted is what was dropped;
a report comes two seconds after the one before or later; and samples that are dropped
are reported at once, unless there was a report within the last two seconds. -/
theorem reports_account (size : ℕ) (events : List Event) :
    let stream : InputStream B := ⟨ring.new size, .start⟩
    let reports := (machine fl ring channels).outputs stream events
    (reports.map Prod.snd).sum +
        ((machine fl ring channels).run stream events).overflow.overflowSamples =
          (ring.refused (ring.new size) (events.flatMap (Event.operations fl channels))).length ∧
      (reports.map Prod.fst).IsChain (fun t t' => t + 2 * 10 ^ 9 ≤ t') ∧
      ∀ before now data after, events = before ++ .callback true now data :: after →
        0 < dropped fl ring channels ((machine fl ring channels).run stream before)
          (.callback true now data) →
        (((machine fl ring channels).step ((machine fl ring channels).run stream before)
            (.callback true now data)).2.map Prod.fst = [now] ∨
          ∃ report ∈ (machine fl ring channels).outputs stream before,
            now < report.1 + 2 * 10 ^ 9) := by
  refine ⟨?_, ?_, ?_⟩
  · exact (run_account ..).trans (Nat.zero_add _)
  · exact run_times fl ring channels ⟨ring.new size, .start⟩ events
  · rintro before now data after rfl some
    rcases step_counted fl ring channels
        ((machine fl ring channels).run ⟨ring.new size, .start⟩ before) (.callback true now data)
      with ⟨nothing, _, _⟩ | ⟨_, _, happened, _, _, _, report⟩ | ⟨_, t, _, happened, last, recent, _, _⟩
    · exact absurd some (by rw [nothing]; exact Nat.lt_irrefl 0)
    · cases happened
      exact Or.inl (by rw [report]; rfl)
    · cases happened
      obtain ⟨report, member, rfl⟩ :=
        List.mem_map.mp (mem_reports_of_mem_logTime rfl last)
      exact Or.inr ⟨report, member, recent⟩

end InputStream

/-! ## What is played -/

/-- What a callback makes of the samples it is to fill: each popped sample on all
channels, and silence. Samples after the last whole frame stay. -/
def fill (channels : Nat) (data popped : List Sample) : List Sample :=
  ((List.range (data.length / channels)).flatMap fun i =>
    List.replicate channels ((popped[i]?).getD 0)) ++
      data.drop (data.length / channels * channels)

/-- Popped samples with silence after them. -/
theorem range_getD_eq {popped : List Sample} {size : ℕ} (fits : popped.length ≤ size) :
    ((List.range size).map fun i => (popped[i]?).getD 0) =
      popped ++ List.replicate (size - popped.length) 0 := by
  refine List.ext_getElem? fun i => ?_
  rw [List.getElem?_map, List.getElem?_append]
  by_cases inside : i < size
  · rw [List.getElem?_range inside]
    split_ifs with here
    · simp [here]
    · rw [List.getElem?_replicate, if_pos (by omega)]
      simp [List.getElem?_eq_none (Nat.le_of_not_lt here)]
  · rw [List.getElem?_eq_none (by simpa using inside), if_neg (by omega), List.getElem?_replicate,
      if_neg (by omega)]
    rfl

/-- **The callbacks for one channel and for many** do the same: pop a sample for each
frame and fill the frames. -/
theorem outputCb_running {B : Type} {ring : RingBuffer Sample B} {channels : Nat} (cons : B)
    (data : List Sample) :
    outputCb ring channels cons true data =
      ((ring.popSlice cons (data.length / channels)).2,
        fill channels data (ring.popSlice cons (data.length / channels)).1) := by
  unfold outputCb fill
  by_cases single : channels = 1
  · subst single
    have fits : (ring.popSlice cons data.length).1.length ≤ data.length := by
      rw [ring.popped]
      exact List.length_take_le ..
    simp only [Bool.not_true, Bool.false_eq_true, if_false, if_true, Nat.div_one, Nat.mul_one,
      List.drop_length, List.append_nil, List.replicate_one]
    rw [← range_getD_eq fits, List.map_eq_flatMap]
  · simp only [Bool.not_true, Bool.false_eq_true, if_false, if_neg single, List.flatMap_map]

/-- An output stream filled some samples. -/
structure Playback where
  running : Bool
  /-- What was to be filled. -/
  data : List Sample
  filled : List Sample
  /-- How many samples were left in the buffer then. -/
  left : Nat

/-- What was played of some popped samples. Without a running session it is silence, and
silence is mixed in only when nothing is left to be popped. -/
structure Playback.Of (channels : Nat) (playback : Playback) (popped : List Sample) : Prop where
  stopped : playback.running = false →
    popped = [] ∧ playback.filled = playback.data.map fun _ => 0
  running : playback.running = true → playback.filled = fill channels playback.data popped
  frames : popped.length ≤ playback.data.length / channels
  underrun : playback.running = true → popped.length < playback.data.length / channels →
    playback.left = 0

/-- What happens to the buffer of an output stream: the session pushes a mixed frame, or
a callback of the device. -/
inductive OutputEvent where
  | push (mixed : List Sample)
  | callback (running : Bool) (data : List Sample)

namespace OutputEvent

variable {B : Type} (ring : RingBuffer Sample B) (channels : Nat)

/-- What an event asks of the buffer. -/
def operations : OutputEvent → List (RingBuffer.Operation Sample)
  | .push mixed => [.push mixed]
  | .callback running data => if running then [.pop (data.length / channels)] else []

/-- An output stream under a sequence of events. It puts out what is played. -/
def machine : Machine B OutputEvent Playback where
  step
    | cons, .push mixed => ((ring.pushSlice cons mixed).2, [])
    | cons, .callback running data =>
        let (cons', filled) := outputCb ring channels cons running data
        (cons', [⟨running, data, filled, (ring.contents cons').length⟩])

/-- One event does to the buffer what it asks, and plays what it pops. -/
theorem step_played (cons : B) (event : OutputEvent) :
    ((machine ring channels).step cons event).1 =
        ring.machine.run cons (event.operations channels) ∧
      ∃ popped, popped.flatten = ring.machine.outputs cons (event.operations channels) ∧
        List.Forall₂ (Playback.Of channels) ((machine ring channels).step cons event).2 popped := by
  cases event with
  | push mixed => exact ⟨rfl, [], rfl, .nil⟩
  | callback running data =>
    cases running with
    | false =>
      exact ⟨rfl, [[]], rfl,
        .cons ⟨fun _ => ⟨rfl, rfl⟩, (by rintro ⟨⟩), Nat.zero_le _, (by rintro ⟨⟩)⟩ .nil⟩
    | true =>
      have step : (machine ring channels).step cons (.callback true data) =
          ((ring.popSlice cons (data.length / channels)).2,
            [⟨true, data, fill channels data (ring.popSlice cons (data.length / channels)).1,
              (ring.contents (ring.popSlice cons (data.length / channels)).2).length⟩]) := by
        unfold machine
        simp only [outputCb_running]
      rw [step]
      refine ⟨rfl, [(ring.popSlice cons (data.length / channels)).1], ?_,
        .cons ⟨(by rintro ⟨⟩), fun _ => rfl, ?_, fun _ less => ?_⟩ .nil⟩
      · rw [List.flatten_singleton]
        exact (List.append_nil _).symm
      · rw [ring.popped]
        exact List.length_take_le ..
      · rw [ring.popped, List.length_take] at less
        change (ring.contents (ring.popSlice cons (data.length / channels)).2).length = 0
        rw [ring.contents_pop, List.length_drop]
        dsimp only at less
        omega

/-- **What is played**, over any pushes and callbacks: everything that was accepted, in
order, each sample once on all channels, with silence only where nothing was left; and
the rest is still in the buffer. -/
theorem played_in_order (cons : B) (events : List OutputEvent) :
    ∃ popped, List.Forall₂ (Playback.Of channels) ((machine ring channels).outputs cons events)
        popped ∧
      popped.flatten ++ ring.contents ((machine ring channels).run cons events) =
        ring.contents cons ++ ring.accepted cons (events.flatMap (operations channels)) := by
  have parts : ∃ popped, popped.flatten =
        ring.machine.outputs cons (events.flatMap (operations channels)) ∧
      (machine ring channels).run cons events =
        ring.machine.run cons (events.flatMap (operations channels)) ∧
      List.Forall₂ (Playback.Of channels) ((machine ring channels).outputs cons events) popped := by
    induction events generalizing cons with
    | nil => exact ⟨[], rfl, rfl, .nil⟩
    | cons event rest ih =>
      obtain ⟨buffer, now, popped, played⟩ := step_played ring channels cons event
      obtain ⟨later, popped', run, played'⟩ := ih ((machine ring channels).step cons event).1
      refine ⟨now ++ later, ?_, ?_, List.rel_append played played'⟩
      · rw [List.flatten_append, popped, popped', List.flatMap_cons, Machine.outputs_append, buffer]
      · rw [Machine.run_cons, run, List.flatMap_cons, Machine.run_append, buffer]
  obtain ⟨popped, flat, run, played⟩ := parts
  refine ⟨popped, played, ?_⟩
  rw [flat, run]
  exact (RingBuffer.accepted_eq ..).symm

end OutputEvent

end VoiceChat
