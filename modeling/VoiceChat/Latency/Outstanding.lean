import VoiceChat.Latency.Statistics

/-!
# Which pings can still be answered

A tracker keeps sixteen pings pending, so a pong for any of the last sixteen pings should
yield a measurement. When the table is full a ping takes the place of another one, and the
code takes the first key that the table hands out for the oldest. The order of a hash table
says nothing about age: the last sixteen can be answered exactly as long as the key handed
out is at least sixteen pings old (`prompt_iff`), whatever else the table holds.
-/

set_option autoImplicit false

namespace VoiceChat

namespace LatencyTracker

namespace Audited

/-- Few pings are pending, and a pong for one of the latest that was not answered yields a
measurement. -/
structure Prompt (audited : Audited) : Prop where
  bounded : audited.tracker.pending.size ≤ maxPendingPings
  measured : ∀ ping id, audited.ledger.ids[ping]? = some id → audited.ledger.base ≤ ping →
    audited.ledger.sent ≤ ping + maxPendingPings → ping ∉ audited.ledger.counted →
    ∀ now, (audited.tracker.pongReceived id now).1 ≠ none

/-- A ping that needs room takes it from one that is at least sixteen pings old. -/
def DropsStale (audited : Audited) : Operation → Prop
  | .pingSent order _ => maxPendingPings ≤ audited.tracker.pending.size →
      ∀ oldest ∈ (order.1 audited.tracker.pending.keys).head?,
        maxPendingPings ≤ (audited.tracker.nextPingId - oldest).toNat
  | _ => True

instance DropsStale.decidable (audited : Audited) :
    (operation : Operation) → Decidable (audited.DropsStale operation)
  | .pingSent order _ =>
      -- not by going through all ids
      have := Option.decidableForallMem
        (p := fun oldest => maxPendingPings ≤ (audited.tracker.nextPingId - oldest).toNat)
        (order.1 audited.tracker.pending.keys).head?
      inferInstanceAs (Decidable (maxPendingPings ≤ audited.tracker.pending.size → _))
  | .pongReceived _ _ => inferInstanceAs (Decidable True)
  | .reset => inferInstanceAs (Decidable True)

/-! ## The pending table -/

/-- The latest pings that were not answered are pending. -/
def Covers (audited : Audited) : Prop :=
  ∀ ping, audited.ledger.base ≤ ping → ping < audited.ledger.sent →
    audited.ledger.sent ≤ ping + maxPendingPings → ping ∉ audited.ledger.counted →
    UInt32.ofNat ping ∈ audited.tracker.pending

theorem pongReceived_ne_none {tracker : LatencyTracker} {id : UInt32} {now : Instant} :
    (tracker.pongReceived id now).1 ≠ none ↔ id ∈ tracker.pending := by
  rw [HashMap.mem_iff_lookup]
  unfold pongReceived
  cases tracker.pending.lookup id with
  | none => simp
  | some sendTime => simp

/-- As the ids count the pings, only what is pending matters. -/
theorem Accounted.prompt_iff_covers {audited : Audited} (accounted : audited.Accounted) :
    audited.Prompt ↔ audited.tracker.pending.size ≤ maxPendingPings ∧ audited.Covers := by
  have named : ∀ ping id, audited.ledger.ids[ping]? = some id ↔
      ping < audited.ledger.sent ∧ UInt32.ofNat ping = id := by
    intro ping id
    rw [accounted.ids, List.getElem?_map, Option.map_eq_some_iff]
    constructor
    · rintro ⟨ping', found, rfl⟩
      obtain ⟨within, same⟩ := List.getElem?_eq_some_iff.mp found
      rw [List.getElem_range] at same
      exact ⟨by simpa using within, by rw [same]⟩
    · rintro ⟨within, rfl⟩
      exact ⟨ping, by rw [List.getElem?_range within], rfl⟩
  constructor
  · rintro ⟨bounded, measured⟩
    refine ⟨bounded, fun ping since sent recent unanswered => ?_⟩
    exact pongReceived_ne_none.mp
      (measured ping _ ((named ping _).mpr ⟨sent, rfl⟩) since recent unanswered 0)
  · rintro ⟨bounded, covers⟩
    refine ⟨bounded, fun ping id issued since recent unanswered now => ?_⟩
    obtain ⟨sent, rfl⟩ := (named ping id).mp issued
    exact pongReceived_ne_none.mpr (covers ping since sent recent unanswered)

/-- Among the first `2 ^ 32` pings the id tells the ping. -/
theorem ofNat_inj {ping ping' : ℕ} (first : ping < UInt32.size) (second : ping' < UInt32.size) :
    UInt32.ofNat ping = UInt32.ofNat ping' ↔ ping = ping' := by
  rw [← UInt32.toNat_inj, UInt32.toNat_ofNat_of_lt' first, UInt32.toNat_ofNat_of_lt' second]

/-- How far an id lies behind the next one. -/
theorem toNat_behind {ping next : ℕ} (before : ping < next) (few : next < UInt32.size) :
    (UInt32.ofNat next - UInt32.ofNat ping).toNat = next - ping := by
  rw [UInt32.toNat_sub_of_le, UInt32.toNat_ofNat_of_lt' few,
    UInt32.toNat_ofNat_of_lt' (before.trans few)]
  rw [UInt32.le_iff_toNat_le, UInt32.toNat_ofNat_of_lt' few,
    UInt32.toNat_ofNat_of_lt' (before.trans few)]
  exact before.le

/-- **What a ping does to the table**: it joins a table with room, and in a full one takes
the place of the first key handed out. -/
theorem pingSent_pending (tracker : LatencyTracker) (order : HashOrder UInt32) (now : Instant) :
    tracker.pending.size < maxPendingPings ∧
        (tracker.pingSent order now).2.pending =
          tracker.pending.insert tracker.nextPingId now ∨
      maxPendingPings ≤ tracker.pending.size ∧ ∃ oldest ∈ tracker.pending,
        (order.1 tracker.pending.keys).head? = some oldest ∧
        (tracker.pingSent order now).2.pending =
          (tracker.pending.erase oldest).insert tracker.nextPingId now := by
  by_cases full : maxPendingPings ≤ tracker.pending.size
  · right
    refine ⟨full, ?_⟩
    have keys := order.2 tracker.pending.keys
    have length : 0 < (order.1 tracker.pending.keys).length := by
      rw [keys.length_eq]
      exact (Nat.succ_pos 15).trans_le full
    obtain ⟨oldest, rest, handed⟩ := List.exists_cons_of_length_pos length
    have member : oldest ∈ tracker.pending.keys :=
      keys.mem_iff.mp (handed ▸ List.mem_cons_self)
    have first : (order.1 tracker.pending.keys).head? = some oldest := by
      rw [handed]
      rfl
    refine ⟨oldest, AList.mem_keys.mpr member, first, ?_⟩
    unfold pingSent
    dsimp only
    rw [if_pos full, first]
  · left
    refine ⟨Nat.lt_of_not_le full, ?_⟩
    unfold pingSent
    dsimp only
    rw [if_neg full]

theorem size_pingSent_le {tracker : LatencyTracker}
    (bounded : tracker.pending.size ≤ maxPendingPings) (order : HashOrder UInt32)
    (now : Instant) : (tracker.pingSent order now).2.pending.size ≤ maxPendingPings := by
  obtain ⟨room, pending⟩ | ⟨_, oldest, member, _, pending⟩ := pingSent_pending tracker order now
  · rw [pending]
    exact (HashMap.size_insert_le _ _ _).trans room
  · rw [pending]
    refine (HashMap.size_insert_le _ _ _).trans ?_
    rw [HashMap.size_erase_of_mem member]
    exact bounded

/-! ## One operation -/

theorem size_apply_le {audited : Audited}
    (bounded : audited.tracker.pending.size ≤ maxPendingPings) (operation : Operation) :
    (audited.apply operation).tracker.pending.size ≤ maxPendingPings := by
  cases operation with
  | pingSent order now => exact size_pingSent_le bounded order now
  | pongReceived pingId now =>
    obtain ⟨_, _, same⟩ | ⟨member, _, tracker, _, after, pending, _⟩ :=
      pongReceived_cases audited pingId now
    · rwa [same]
    · rw [after]
      change tracker.pending.size ≤ _
      have one := HashMap.size_erase_of_mem member
      rw [pending]
      exact (Nat.le_succ _).trans (one.le.trans bounded)
  | reset => exact Nat.zero_le _

/-- How far a pending id lies behind the next one tells how many pings came since. -/
theorem Accounted.behind {audited : Audited} (accounted : audited.Accounted) {id : UInt32}
    (member : id ∈ audited.tracker.pending) (few : audited.ledger.sent < UInt32.size) :
    (audited.tracker.nextPingId - id).toNat =
      audited.ledger.sent - audited.ledger.origin id := by
  obtain ⟨_, sent, named, _⟩ := accounted.pending id member
  rw [accounted.next, ← toNat_behind sent few, named]

/-- Where the earlier ones of the latest pings are kept, the new ping completes them. -/
theorem Accounted.covers_of_insert {audited : Audited} (accounted : audited.Accounted)
    {order : HashOrder UInt32} {now : Instant} {kept : HashMap UInt32 Instant}
    (pending : (audited.tracker.pingSent order now).2.pending =
      kept.insert audited.tracker.nextPingId now)
    (earlier : ∀ ping, audited.ledger.base ≤ ping → ping < audited.ledger.sent →
      audited.ledger.sent < ping + maxPendingPings → ping ∉ audited.ledger.counted →
      UInt32.ofNat ping ∈ kept) : (audited.apply (.pingSent order now)).Covers := by
  intro ping since sent recent unanswered
  rw [sent_pingSent] at sent recent
  change UInt32.ofNat ping ∈ (audited.tracker.pingSent order now).2.pending
  rw [pending, AList.mem_insert]
  by_cases new : ping = audited.ledger.sent
  · left
    rw [new, accounted.next]
  · right
    exact earlier ping since (Nat.lt_of_le_of_ne (Nat.le_of_lt_succ sent) new) recent unanswered

/-- A ping keeps the latest ones pending exactly when it drops none of them. -/
theorem Accounted.covers_pingSent_iff {audited : Audited} (accounted : audited.Accounted)
    (covers : audited.Covers) (order : HashOrder UInt32) (now : Instant)
    (few : audited.ledger.sent < UInt32.size) :
    (audited.apply (.pingSent order now)).Covers ↔
      audited.DropsStale (.pingSent order now) := by
  obtain ⟨room, pending⟩ | ⟨full, oldest, member, first, pending⟩ :=
    pingSent_pending audited.tracker order now
  · refine iff_of_true ?_ fun full => absurd full (Nat.not_le.mpr room)
    refine accounted.covers_of_insert pending fun ping since sent recent unanswered => ?_
    exact covers ping since sent recent.le unanswered
  obtain ⟨since, sent, named, unanswered⟩ := accounted.pending oldest member
  have stale : audited.DropsStale (.pingSent order now) ↔
      maxPendingPings ≤ audited.ledger.sent - audited.ledger.origin oldest := by
    rw [← accounted.behind member few]
    constructor
    · intro drops
      exact drops full oldest first
    · rintro old _ oldest' handed
      cases (Option.mem_def.mp handed).symm.trans first
      exact old
  rw [stale]
  constructor
  · -- the dropped ping would be one of the latest
    intro covers'
    by_contra young
    have latest : UInt32.ofNat (audited.ledger.origin oldest) ∈
        (audited.tracker.pingSent order now).2.pending := by
      refine covers' _ since ?_ ?_ unanswered
      · rw [sent_pingSent]
        exact sent.trans (Nat.lt_succ_self _)
      · rw [sent_pingSent]
        omega
    rw [pending, AList.mem_insert, AList.mem_erase, accounted.next] at latest
    rcases latest with new | ⟨dropped, _⟩
    · exact sent.ne ((ofNat_inj (sent.trans few) few).mp new)
    · exact dropped named
  · intro old
    refine accounted.covers_of_insert pending fun ping since' sent' recent unanswered' => ?_
    rw [AList.mem_erase]
    refine ⟨fun same => ?_, covers ping since' sent' recent.le unanswered'⟩
    rw [← named, ofNat_inj (sent'.trans few) (sent.trans few)] at same
    omega

/-- A pong takes away only the ping that it answers. -/
theorem Accounted.covers_pongReceived {audited : Audited} (accounted : audited.Accounted)
    (covers : audited.Covers) (pingId : UInt32) (now : Instant)
    (few : audited.ledger.sent < UInt32.size) :
    (audited.apply (.pongReceived pingId now)).Covers := by
  obtain ⟨_, _, same⟩ | ⟨member, _, tracker, _, after, pending, _⟩ :=
    pongReceived_cases audited pingId now
  · rwa [same]
  rw [after]
  intro ping since sent recent unanswered
  obtain ⟨_, sent', named, _⟩ := accounted.pending pingId member
  have other : ping ≠ audited.ledger.origin pingId := fun same =>
    unanswered (same ▸ List.mem_cons_self)
  have waits := covers ping since sent recent fun counted =>
    unanswered (List.mem_cons_of_mem _ counted)
  change UInt32.ofNat ping ∈ tracker.pending
  rw [pending, AList.mem_erase]
  refine ⟨fun same => other ?_, waits⟩
  rw [← named] at same
  exact (ofNat_inj (Nat.lt_trans sent few) (sent'.trans few)).mp same

/-- **One operation** keeps the latest pings answerable exactly when it drops none of
them. -/
theorem Accounted.prompt_apply_iff {audited : Audited} (accounted : audited.Accounted)
    (prompt : audited.Prompt) {operation : Operation} (few : audited.ledger.sent < UInt32.size) :
    (audited.apply operation).Prompt ↔ audited.DropsStale operation := by
  obtain ⟨bounded, covers⟩ := accounted.prompt_iff_covers.mp prompt
  rw [(accounted.apply operation).prompt_iff_covers,
    and_iff_right (size_apply_le bounded operation)]
  cases operation with
  | pingSent order now => exact accounted.covers_pingSent_iff covers order now few
  | pongReceived pingId now =>
    exact iff_of_true (accounted.covers_pongReceived covers pingId now few) trivial
  | reset =>
    refine iff_of_true (fun ping since sent => ?_) trivial
    exact absurd sent (Nat.not_lt.mpr since)

/-! ## Runs -/

theorem prompt_new : new.Prompt :=
  accounted_new.prompt_iff_covers.mpr ⟨Nat.zero_le _, fun _ _ sent => absurd sent (Nat.not_lt_zero _)⟩

/-- No operation takes a ping back. -/
theorem sent_le_apply (audited : Audited) (operation : Operation) :
    audited.ledger.sent ≤ (audited.apply operation).ledger.sent := by
  cases operation with
  | pingSent order now =>
    rw [sent_pingSent]
    exact Nat.le_succ _
  | pongReceived pingId now =>
    obtain ⟨_, _, same⟩ | ⟨_, _, _, _, after, _⟩ := pongReceived_cases audited pingId now
    · rw [same]
    · rw [after]
      exact Nat.le_refl _
  | reset => exact Nat.le_refl _

theorem sent_le_run (audited : Audited) (operations : List Operation) :
    audited.ledger.sent ≤ (machine.run audited operations).ledger.sent :=
  Machine.invariant (fun later => audited.ledger.sent ≤ later.ledger.sent)
    (fun later operation reached _ => reached.trans (sent_le_apply later operation))
    (Nat.le_refl _) (machine.along_true audited operations)

/-- **The latest pings can be answered**, and no more than sixteen are pending, in every
state of a run exactly when every ping that needs room takes it from one that is at least
sixteen pings old. -/
theorem prompt_iff (operations : List Operation)
    (few : (machine.run new operations).ledger.sent < UInt32.size) :
    (∀ done, done <+: operations → (machine.run new done).Prompt) ↔
      machine.Along DropsStale new operations := by
  have admitted : machine.Along (fun audited _ => audited.ledger.sent < UInt32.size) new
      operations := by
    refine Machine.along_of_prefix fun done operation inside => ?_
    obtain ⟨rest, rfl⟩ := inside
    rw [List.append_assoc, Machine.run_append] at few
    exact (sent_le_run _ _).trans_lt few
  exact Machine.along_iff_of_invariant Accounted Prompt
    (fun _ operation accounted _ => accounted.apply operation)
    (fun _ _ accounted prompt few => accounted.prompt_apply_iff prompt few)
    accounted_new prompt_new admitted

/-- Seventeen pings one after the other. -/
def seventeenPings (order : HashOrder UInt32) : List Operation :=
  List.replicate 17 (.pingSent order 0)

/-- Oldest first. -/
def oldestFirst : HashOrder UInt32 := ⟨List.reverse, fun _ => List.reverse_perm _⟩

/-- A table that hands out the oldest ping first drops it. -/
theorem prompt_oldest_first : (machine.run new (seventeenPings oldestFirst)).Prompt :=
  (prompt_iff (seventeenPings oldestFirst) (by decide +kernel)).mpr (by decide +kernel) _
    (List.prefix_refl _)

/-- **The newest ping may be the one dropped**: a table that hands out the newest ping first
forgets the sixteenth when the seventeenth is sent. -/
theorem newest_ping_dropped :
    ¬ ∀ operations : List Operation, (machine.run new operations).ledger.sent < UInt32.size →
      ∀ done, done <+: operations → (machine.run new done).Prompt := by
  intro claim
  have prompt := claim (seventeenPings (HashOrder.stored _)) (by decide +kernel) _
    (List.prefix_refl _)
  refine prompt.measured 15 15 (by decide +kernel) (by decide +kernel) (by decide +kernel)
    (by decide +kernel) 0 ?_
  decide +kernel

end Audited

end LatencyTracker

end VoiceChat
