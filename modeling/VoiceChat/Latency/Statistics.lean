import Mathlib.Data.List.Nodup
import Mathlib.Data.List.Range
import VoiceChat.Latency
import VoiceChat.Library.Machine

/-!
# What the latency statistics say

Beside a tracker we keep a ledger of what went in and out of it: the ids of the pings,
and the pings whose pong was measured since the last reset. A ping is known by its
number, since the ids repeat after `2 ^ 32` pings.

The ledger and the pending table agree throughout (`Accounted`), so every sample is a
ping of its own. The averages stay between the least and the greatest round-trip time,
and the jitter below their distance: a moving average of two numbers lies between them,
and truncation keeps it there (`LatencyStats.Consistent.record`).
-/

set_option autoImplicit false

namespace VoiceChat

namespace LatencyStats

/-- The averages lie within what was measured. -/
structure Consistent (stats : LatencyStats) : Prop where
  min_le_avg : stats.minRttUs ≤ stats.avgRttUs
  avg_le_max : stats.avgRttUs ≤ stats.maxRttUs
  min_le_last : stats.minRttUs ≤ stats.lastRttUs
  last_le_max : stats.lastRttUs ≤ stats.maxRttUs
  jitter_le : stats.jitterUs ≤ stats.maxRttUs - stats.minRttUs

theorem le_smooth {bound old new : Nat} (first : bound ≤ old) (second : bound ≤ new) :
    bound ≤ smooth old new := by
  unfold smooth
  omega

theorem smooth_le {bound old new : Nat} (first : old ≤ bound) (second : new ≤ bound) :
    smooth old new ≤ bound := by
  unfold smooth
  omega

/-- The first sample is everything there is. -/
theorem consistent_record_first {stats : LatencyStats} (none : stats.sampleCount = 0)
    (least : stats.minRttUs = 2 ^ 64 - 1) (greatest : stats.maxRttUs = 0) (lastRtt : Nat)
    {rttUs : Nat} (short : rttUs < 2 ^ 50) : (stats.record lastRtt rttUs).Consistent := by
  have min' : (stats.record lastRtt rttUs).minRttUs = rttUs := by
    refine Nat.min_eq_right ?_
    rw [least]
    omega
  have max' : (stats.record lastRtt rttUs).maxRttUs = rttUs := by
    refine Nat.max_eq_right ?_
    rw [greatest]
    exact Nat.zero_le _
  have avg' : (stats.record lastRtt rttUs).avgRttUs = rttUs := if_pos none
  have jitter' : (stats.record lastRtt rttUs).jitterUs = 0 := if_pos none
  constructor
  · rw [min', avg']
  · rw [avg', max']
  · exact min'.le
  · exact max'.ge
  · rw [jitter']
    exact Nat.zero_le _

/-- **A further sample** moves the bounds apart and the averages within them. -/
theorem Consistent.record {stats : LatencyStats} (consistent : stats.Consistent)
    (some : stats.sampleCount ≠ 0) (rttUs : Nat) :
    (stats.record stats.lastRttUs rttUs).Consistent := by
  obtain ⟨min_le_avg, avg_le_max, min_le_last, last_le_max, jitter_le⟩ := consistent
  have avg' : (stats.record stats.lastRttUs rttUs).avgRttUs =
      smooth stats.avgRttUs rttUs := if_neg some
  have jitter' : (stats.record stats.lastRttUs rttUs).jitterUs =
      smooth stats.jitterUs ((rttUs - stats.lastRttUs) + (stats.lastRttUs - rttUs)) := if_neg some
  have least : (stats.record stats.lastRttUs rttUs).minRttUs = min stats.minRttUs rttUs := rfl
  have greatest : (stats.record stats.lastRttUs rttUs).maxRttUs = max stats.maxRttUs rttUs := rfl
  constructor
  · rw [least, avg']
    exact le_smooth ((Nat.min_le_left ..).trans min_le_avg) (Nat.min_le_right ..)
  · rw [greatest, avg']
    exact smooth_le (avg_le_max.trans (Nat.le_max_left ..)) (Nat.le_max_right ..)
  · exact Nat.min_le_right ..
  · exact Nat.le_max_right ..
  · rw [least, greatest, jitter']
    exact smooth_le (by omega) (by omega)

end LatencyStats

namespace LatencyTracker

/-- What can be asked of a tracker. -/
inductive Operation where
  | pingSent (order : HashOrder UInt32) (now : Instant)
  | pongReceived (pingId : UInt32) (now : Instant)
  | reset

/-- What went in and out of a tracker. -/
structure Ledger where
  /-- The ids of the pings so far, oldest first. -/
  ids : List UInt32
  /-- How many pings were sent before the last reset. -/
  base : ℕ
  /-- The number of the latest ping with an id. -/
  origin : UInt32 → ℕ
  /-- The pings whose pong was measured since the last reset, latest first. -/
  counted : List ℕ

/-- How many pings were sent. -/
def Ledger.sent (ledger : Ledger) : ℕ := ledger.ids.length

/-- A tracker with its ledger. -/
structure Audited where
  tracker : LatencyTracker
  ledger : Ledger

namespace Audited

def new : Audited where
  tracker := LatencyTracker.new
  ledger := ⟨[], 0, fun _ => 0, []⟩

/-- An operation on the tracker, entered in the ledger. -/
def apply (audited : Audited) : Operation → Audited
  | .pingSent order now =>
      let (id, tracker) := audited.tracker.pingSent order now
      ⟨tracker, { audited.ledger with
        ids := audited.ledger.ids ++ [id]
        origin := Function.update audited.ledger.origin id audited.ledger.sent }⟩
  | .pongReceived pingId now =>
      match audited.tracker.pongReceived pingId now with
      | (none, tracker) => ⟨tracker, audited.ledger⟩
      | (some _, tracker) => ⟨tracker, { audited.ledger with
          counted := audited.ledger.origin pingId :: audited.ledger.counted }⟩
  | .reset =>
      ⟨audited.tracker.reset, { audited.ledger with
        base := audited.ledger.sent
        counted := [] }⟩

/-- A tracker under a sequence of operations. -/
def machine : Machine Audited Operation Empty where
  step audited operation := (audited.apply operation, [])

/-- The round-trip time that an operation measures, if it measures one, is below `2 ^ 50`
microseconds. -/
def ShortRtt (audited : Audited) : Operation → Prop
  | .pongReceived pingId now =>
      ∀ rttUs ∈ (audited.tracker.pongReceived pingId now).1, rttUs < 2 ^ 50
  | _ => True

instance ShortRtt.decidable (audited : Audited) :
    (operation : Operation) → Decidable (audited.ShortRtt operation)
  | .pingSent _ _ => inferInstanceAs (Decidable True)
  | .pongReceived pingId now => inferInstanceAs
      (Decidable (∀ rttUs ∈ (audited.tracker.pongReceived pingId now).1, rttUs < 2 ^ 50))
  | .reset => inferInstanceAs (Decidable True)

/-- **The books balance**: ids count the pings, what is pending are pings since the last
reset that were not measured, each under its id, and every sample is a ping of its own. -/
structure Accounted (audited : Audited) : Prop where
  ids : audited.ledger.ids = (List.range audited.ledger.sent).map UInt32.ofNat
  next : audited.tracker.nextPingId = UInt32.ofNat audited.ledger.sent
  base : audited.ledger.base ≤ audited.ledger.sent
  pending : ∀ id ∈ audited.tracker.pending, audited.ledger.base ≤ audited.ledger.origin id ∧
    audited.ledger.origin id < audited.ledger.sent ∧
    UInt32.ofNat (audited.ledger.origin id) = id ∧
    audited.ledger.origin id ∉ audited.ledger.counted
  samples : audited.tracker.stats.sampleCount = audited.ledger.counted.length
  once : audited.ledger.counted.Nodup
  counted : ∀ ping ∈ audited.ledger.counted,
    audited.ledger.base ≤ ping ∧ ping < audited.ledger.sent

/-- No sample yet, or consistent statistics with the last sample at hand. -/
def Sound (audited : Audited) : Prop :=
  audited.tracker.stats.sampleCount = 0 ∧ audited.tracker.stats.minRttUs = 2 ^ 64 - 1 ∧
      audited.tracker.stats.maxRttUs = 0 ∨
    audited.tracker.stats.sampleCount ≠ 0 ∧ audited.tracker.stats.Consistent ∧
      audited.tracker.lastRtt = audited.tracker.stats.lastRttUs

theorem sent_pingSent (audited : Audited) (order : HashOrder UInt32) (now : Instant) :
    (audited.apply (.pingSent order now)).ledger.sent = audited.ledger.sent + 1 :=
  List.length_append

theorem accounted_new : new.Accounted where
  ids := rfl
  next := rfl
  base := Nat.le_refl _
  pending _ member := by cases member
  samples := rfl
  once := List.nodup_nil
  counted _ member := by cases member

/-! ## One operation -/

/-- A new ping takes the next id; making room takes nothing in. -/
theorem mem_pingSent {tracker : LatencyTracker} {order : HashOrder UInt32} {now : Instant}
    {id : UInt32} (member : id ∈ (tracker.pingSent order now).2.pending) :
    id = tracker.nextPingId ∨ id ∈ tracker.pending := by
  rcases AList.mem_insert _ |>.mp member with same | member
  · exact Or.inl same
  · right
    split_ifs at member
    · split at member
      · exact (AList.mem_erase.mp member).2
      · exact member
    · exact member

theorem Accounted.pingSent {audited : Audited} (accounted : audited.Accounted)
    (order : HashOrder UInt32) (now : Instant) :
    (audited.apply (.pingSent order now)).Accounted where
  ids := by
    rw [sent_pingSent, List.range_succ, List.map_append, ← accounted.ids, List.map_singleton,
      ← accounted.next]
    rfl
  next := by
    rw [sent_pingSent, UInt32.ofNat_add, ← accounted.next]
    rfl
  base := by
    rw [sent_pingSent]
    exact accounted.base.trans (Nat.le_succ _)
  pending id member := by
    have origin : (audited.apply (.pingSent order now)).ledger.origin =
        Function.update audited.ledger.origin audited.tracker.nextPingId audited.ledger.sent := rfl
    rw [sent_pingSent, origin]
    by_cases new : id = audited.tracker.nextPingId
    · rw [new, Function.update_self]
      refine ⟨accounted.base, Nat.lt_succ_self _, accounted.next.symm, fun counted => ?_⟩
      exact Nat.lt_irrefl _ (accounted.counted _ counted).2
    · rw [Function.update_of_ne new]
      obtain ⟨base, sent, named, fresh⟩ :=
        accounted.pending id ((mem_pingSent member).resolve_left new)
      exact ⟨base, sent.trans (Nat.lt_succ_self _), named, fresh⟩
  samples := accounted.samples
  once := accounted.once
  counted ping member := by
    rw [sent_pingSent]
    obtain ⟨base, sent⟩ := accounted.counted ping member
    exact ⟨base, sent.trans (Nat.lt_succ_self _)⟩

/-- **What a pong does**: nothing when its ping is not pending; and when it is, the ping is
counted, the sample taken in, and the id is no longer pending. -/
theorem pongReceived_cases (audited : Audited) (pingId : UInt32) (now : Instant) :
    (pingId ∉ audited.tracker.pending ∧
        audited.tracker.pongReceived pingId now = (none, audited.tracker) ∧
        audited.apply (.pongReceived pingId now) = audited) ∨
      (pingId ∈ audited.tracker.pending ∧ ∃ rttUs tracker,
        audited.tracker.pongReceived pingId now = (some rttUs, tracker) ∧
        audited.apply (.pongReceived pingId now) = ⟨tracker, { audited.ledger with
          counted := audited.ledger.origin pingId :: audited.ledger.counted }⟩ ∧
        tracker.pending = audited.tracker.pending.erase pingId ∧
        tracker.nextPingId = audited.tracker.nextPingId ∧
        tracker.stats = audited.tracker.stats.record audited.tracker.lastRtt rttUs ∧
        tracker.lastRtt = rttUs) := by
  cases found : audited.tracker.pending.lookup pingId with
  | none =>
    have unknown : audited.tracker.pongReceived pingId now = (none, audited.tracker) := by
      unfold pongReceived
      rw [found]
    refine Or.inl ⟨fun member => ?_, unknown, ?_⟩
    · obtain ⟨sendTime, stored⟩ := HashMap.mem_iff_lookup.mp member
      cases found.symm.trans stored
    · unfold apply
      dsimp only
      rw [unknown]
  | some sendTime =>
    have measured : ∃ tracker, audited.tracker.pongReceived pingId now =
        (some ((now - sendTime) / 1000), tracker) ∧
        tracker.pending = audited.tracker.pending.erase pingId ∧
        tracker.nextPingId = audited.tracker.nextPingId ∧
        tracker.stats = audited.tracker.stats.record audited.tracker.lastRtt
          ((now - sendTime) / 1000) ∧
        tracker.lastRtt = (now - sendTime) / 1000 := by
      unfold pongReceived
      rw [found]
      exact ⟨_, rfl, rfl, rfl, rfl, rfl⟩
    obtain ⟨tracker, received, rest⟩ := measured
    refine Or.inr ⟨HashMap.mem_iff_lookup.mpr ⟨sendTime, found⟩, _, tracker, received, ?_, rest⟩
    unfold apply
    dsimp only
    rw [received]

theorem Accounted.pongReceived {audited : Audited} (accounted : audited.Accounted)
    (pingId : UInt32) (now : Instant) :
    (audited.apply (.pongReceived pingId now)).Accounted := by
  obtain ⟨_, _, same⟩ | ⟨member, rttUs, tracker, _, after, pending, next, stats, _⟩ :=
    pongReceived_cases audited pingId now
  · rwa [same]
  obtain ⟨base, sent, named, fresh⟩ := accounted.pending pingId member
  rw [after]
  constructor
  · exact accounted.ids
  · exact next.trans accounted.next
  · exact accounted.base
  · intro id stays
    rw [pending, AList.mem_erase] at stays
    obtain ⟨base', sent', named', fresh'⟩ := accounted.pending id stays.2
    refine ⟨base', sent', named', fun counted => ?_⟩
    rcases List.mem_cons.mp counted with same | counted
    · exact stays.1 (named'.symm.trans ((congrArg UInt32.ofNat same).trans named))
    · exact fresh' counted
  · change tracker.stats.sampleCount = _
    rw [stats, List.length_cons, ← accounted.samples]
    rfl
  · exact List.nodup_cons.mpr ⟨fresh, accounted.once⟩
  · intro ping counted
    rcases List.mem_cons.mp counted with rfl | counted
    · exact ⟨base, sent⟩
    · exact accounted.counted ping counted

theorem Accounted.reset {audited : Audited} (accounted : audited.Accounted) :
    (audited.apply .reset).Accounted where
  ids := accounted.ids
  next := accounted.next
  base := Nat.le_refl _
  pending _ member := by cases member
  samples := rfl
  once := List.nodup_nil
  counted _ member := by cases member

/-- **One operation** keeps the books balanced. -/
theorem Accounted.apply {audited : Audited} (accounted : audited.Accounted)
    (operation : Operation) : (audited.apply operation).Accounted := by
  cases operation with
  | pingSent order now => exact accounted.pingSent order now
  | pongReceived pingId now => exact accounted.pongReceived pingId now
  | reset => exact accounted.reset

/-- **One operation** keeps the statistics sound, if its round trip is short. -/
theorem Sound.apply {audited : Audited} (sound : audited.Sound) {operation : Operation}
    (short : audited.ShortRtt operation) : (audited.apply operation).Sound := by
  cases operation with
  | pingSent order now => exact sound
  | pongReceived pingId now =>
    obtain ⟨_, _, same⟩ | ⟨_, rttUs, tracker, received, after, _, _, stats, last⟩ :=
      pongReceived_cases audited pingId now
    · rwa [same]
    have below : rttUs < 2 ^ 50 := by
      refine short rttUs ?_
      rw [received]
      rfl
    rw [after]
    right
    change tracker.stats.sampleCount ≠ 0 ∧ tracker.stats.Consistent ∧
      tracker.lastRtt = tracker.stats.lastRttUs
    rw [stats, last]
    refine ⟨Nat.succ_ne_zero _, ?_, rfl⟩
    rcases sound with ⟨none, least, greatest⟩ | ⟨some, consistent, held⟩
    · exact LatencyStats.consistent_record_first none least greatest _ below
    · rw [held]
      exact consistent.record some rttUs
  | reset => exact Or.inl ⟨rfl, rfl, rfl⟩

/-! ## Runs -/

theorem accounted_run (operations : List Operation) : (machine.run new operations).Accounted :=
  Machine.invariant Accounted (fun _ operation accounted _ => accounted.apply operation)
    accounted_new (machine.along_true new operations)

/-- **The statistics stay consistent**: the averages lie within what was measured, and the
samples are the pings since the last reset whose pong was counted, each counted once. -/
theorem statistics_consistent (operations : List Operation)
    (short : machine.Along ShortRtt new operations) :
    (1 ≤ (machine.run new operations).tracker.stats.sampleCount →
        (machine.run new operations).tracker.stats.Consistent) ∧
      (machine.run new operations).tracker.stats.sampleCount =
        (machine.run new operations).ledger.counted.length ∧
      (machine.run new operations).ledger.counted.Nodup ∧
      ∀ ping ∈ (machine.run new operations).ledger.counted,
        (machine.run new operations).ledger.base ≤ ping ∧
          ping < (machine.run new operations).ledger.sent := by
  have accounted := accounted_run operations
  have sound := Machine.invariant Sound (fun _ _ sound short => sound.apply short)
    (Or.inl ⟨rfl, rfl, rfl⟩) short
  refine ⟨fun some => ?_, accounted.samples, accounted.once, accounted.counted⟩
  rcases sound with ⟨none, _⟩ | ⟨_, consistent, _⟩
  · omega
  · exact consistent

/-- Two pings are answered, one of them twice, after a reset that took one with it. -/
def answeredTwice : List Operation :=
  [.pingSent (HashOrder.stored _) 0, .reset, .pingSent (HashOrder.stored _) 1000000,
    .pingSent (HashOrder.stored _) 2000000, .pongReceived 0 3000000, .pongReceived 1 4000000,
    .pongReceived 1 5000000, .pongReceived 2 6000000]

/-- Two samples are taken, of the pings after the reset. -/
theorem answered_twice_consistent :
    (machine.run new answeredTwice).tracker.stats.Consistent ∧
      (machine.run new answeredTwice).ledger.counted = [2, 1] :=
  ⟨(statistics_consistent answeredTwice (by decide +kernel)).1 (by decide +kernel),
    by decide +kernel⟩

end Audited

end LatencyTracker

end VoiceChat
