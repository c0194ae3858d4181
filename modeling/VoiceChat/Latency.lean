import VoiceChat.Library.HashMap
import VoiceChat.Net

/-!
# Latency measurement

Per-peer round-trip times from ping and pong packets. Instants are nanoseconds.
The moving averages weigh the new value with one eighth and truncate to whole
microseconds, in exact arithmetic.
-/

set_option autoImplicit false

namespace VoiceChat

/-- A point in time, in nanoseconds. -/
abbrev Instant := Nat

def maxPendingPings : Nat := 16

/-- Latency statistics for a single peer, in microseconds. -/
structure LatencyStats where
  lastRttUs : Nat
  minRttUs : Nat
  avgRttUs : Nat
  maxRttUs : Nat
  jitterUs : Nat
  sampleCount : Nat
  deriving DecidableEq

/-- No samples; the minimum starts at the largest 64-bit number. -/
def LatencyStats.initial : LatencyStats where
  lastRttUs := 0
  minRttUs := 2 ^ 64 - 1
  avgRttUs := 0
  maxRttUs := 0
  jitterUs := 0
  sampleCount := 0

/-- The moving average: seven eighths of the old value, one of the new. -/
def LatencyStats.smooth (old new : Nat) : Nat := (7 * old + new) / 8

/-- Take a round-trip time into the statistics. -/
def LatencyStats.record (stats : LatencyStats) (lastRtt rttUs : Nat) : LatencyStats where
  lastRttUs := rttUs
  sampleCount := stats.sampleCount + 1
  minRttUs := min stats.minRttUs rttUs
  maxRttUs := max stats.maxRttUs rttUs
  avgRttUs := if stats.sampleCount = 0 then rttUs else smooth stats.avgRttUs rttUs
  jitterUs :=
    if stats.sampleCount = 0 then 0
    else smooth stats.jitterUs ((rttUs - lastRtt) + (lastRtt - rttUs))

structure LatencyTracker where
  pending : HashMap UInt32 Instant
  nextPingId : UInt32
  stats : LatencyStats
  lastRtt : Nat

namespace LatencyTracker

def new : LatencyTracker where
  pending := ∅
  nextPingId := 0
  stats := LatencyStats.initial
  lastRtt := 0

/-- Record a ping sent. A full table first drops the ping that the iteration
order hands out first. -/
def pingSent (tracker : LatencyTracker) (order : HashOrder UInt32) (now : Instant) :
    UInt32 × LatencyTracker :=
  let id := tracker.nextPingId
  let pending :=
    if tracker.pending.size ≥ maxPendingPings then
      match (order.1 tracker.pending.keys).head? with
      | some oldest => tracker.pending.erase oldest
      | none => tracker.pending
    else
      tracker.pending
  (id, { tracker with nextPingId := id + 1, pending := pending.insert id now })

/-- Record a pong received, with the round-trip time if its ping is pending. -/
def pongReceived (tracker : LatencyTracker) (pingId : UInt32) (now : Instant) :
    Option Nat × LatencyTracker :=
  match tracker.pending.lookup pingId with
  | none => (none, tracker)
  | some sendTime =>
      let rttUs := (now - sendTime) / 1000
      (some rttUs,
        { tracker with
          pending := tracker.pending.erase pingId
          stats := tracker.stats.record tracker.lastRtt rttUs
          lastRtt := rttUs })

def reset (tracker : LatencyTracker) : LatencyTracker :=
  { tracker with pending := ∅, stats := LatencyStats.initial, lastRtt := 0 }

end LatencyTracker

/-- Payload of PING and PONG packets. -/
structure PingPayload where
  pingId : UInt32
  deriving DecidableEq

namespace PingPayload

def toBytes (payload : PingPayload) : Bytes := (be32 payload.pingId).toList

def fromBytes : Bytes → Except Error PingPayload
  | p0 :: p1 :: p2 :: p3 :: _ => .ok ⟨ofBe32 (fourBytes p0 p1 p2 p3)⟩
  | _ => .error .pingTooShort

end PingPayload

end VoiceChat
