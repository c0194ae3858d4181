import VoiceChat.Net

/-!
# The PEER_LIST codec

`from_bytes` walks over the payload with an offset and one bounds check for each
branch. `fromBytesIndexed` is that loop with every access to the slice spelled out,
so that one past the end shows as a panic; `fromBytes` is the same function on what
is left of the payload (`fromBytesIndexed_eq`).

Encoding and decoding are inverse both ways (`encode_decode_inverse`). The one access
without a check is that to the IP version marker of an entry: a payload that ends
right after the id of an entry panics, and no other does (`safe_iff`).
-/

set_option autoImplicit false

namespace VoiceChat

namespace PeerListPayload

/-! ## The loop with its offset -/

/-- `data[i]`, a panic past the end. -/
def byteAt (data : Bytes) (i : ℕ) : Except Error UInt8 :=
  match data[i]? with
  | some b => .ok b
  | none => .error .indexOutOfBounds

/-- `data[i..i + n]`, a panic past the end. -/
def sliceAt (data : Bytes) (i n : ℕ) : Except Error (Vector UInt8 n) :=
  match splitVector n (data.drop i) with
  | some (slice, _) => .ok slice
  | none => .error .indexOutOfBounds

/-- An IPv4 address and its port, and the offset after them. -/
def readV4At (data : Bytes) (offset : ℕ) : Except Error (SocketAddr × ℕ) :=
  if offset + 6 > data.length then
    .error .peerListTruncatedV4
  else do
    let i0 ← byteAt data offset
    let i1 ← byteAt data (offset + 1)
    let i2 ← byteAt data (offset + 2)
    let i3 ← byteAt data (offset + 3)
    let p0 ← byteAt data (offset + 4)
    let p1 ← byteAt data (offset + 5)
    .ok (.v4 (fourBytes i0 i1 i2 i3) (ofBe16 (twoBytes p0 p1)), offset + 6)

/-- An IPv6 address and its port, and the offset after them. -/
def readV6At (data : Bytes) (offset : ℕ) : Except Error (SocketAddr × ℕ) :=
  if offset + 18 > data.length then
    .error .peerListTruncatedV6
  else do
    let octets ← sliceAt data offset 16
    let p0 ← byteAt data (offset + 16)
    let p1 ← byteAt data (offset + 17)
    .ok (.v6 octets (ofBe16 (twoBytes p0 p1)) 0 0, offset + 18)

/-- The body of the loop: one entry, and the offset after it. -/
def readEntryAt (data : Bytes) (offset : ℕ) : Except Error ((UInt8 × SocketAddr) × ℕ) :=
  if offset ≥ data.length then
    .error .peerListTruncated
  else do
    let id ← byteAt data offset
    let ipVer ← byteAt data (offset + 1)
    let (addr, offset) ←
      if ipVer = 4 then readV4At data (offset + 2)
      else if ipVer = 6 then readV6At data (offset + 2)
      else .error (.unknownIpVersion ipVer)
    .ok ((id, addr), offset)

/-- The loop, from an offset on. -/
def readEntriesAt (data : Bytes) : ℕ → ℕ → Except Error (List (UInt8 × SocketAddr))
  | 0, _ => .ok []
  | count + 1, offset => do
      let (entry, offset) ← readEntryAt data offset
      let peers ← readEntriesAt data count offset
      .ok (entry :: peers)

/-- `from_bytes` with every access to the slice spelled out. -/
def fromBytesIndexed (data : Bytes) : Except Error PeerListPayload :=
  if data.length < 9 then
    .error .peerListTooShort
  else do
    let sessionId ← sliceAt data 0 8
    let count ← byteAt data 8
    let peers ← readEntriesAt data count.toNat 9
    .ok ⟨sessionId, peers⟩

theorem byteAt_of_drop {data rest : Bytes} {i : ℕ} {b : UInt8} (left : data.drop i = b :: rest) :
    byteAt data i = .ok b ∧ data.drop (i + 1) = rest := by
  have here : data[i]? = some b := by
    have first := congrArg List.head? left
    rwa [List.head?_drop] at first
  refine ⟨by rw [byteAt, here], ?_⟩
  rw [← List.drop_drop, left]
  rfl

theorem byteAt_of_nil {data : Bytes} {i : ℕ} (left : data.drop i = []) :
    byteAt data i = .error .indexOutOfBounds := by
  rw [byteAt, List.getElem?_eq_none (List.drop_eq_nil_iff.mp left)]

/-- What is left after an address was read off is what came after it. -/
theorem readAddr_eq_some {n : ℕ} {data rest : Bytes} {ip : Vector UInt8 n} {port : UInt16} :
    readAddr n data = some (ip, port, rest) ↔
      data = ip.toList ++ (be16 port).toList ++ rest := by
  constructor
  · intro success
    unfold readAddr at success
    split at success
    · cases success
    · rename_i ip' rest' first
      split at success
      · cases success
      · rename_i port' rest'' second
        cases success
        rw [splitVector_eq_some.mp first, splitVector_eq_some.mp second, be16_ofBe16,
          List.append_assoc]
  · rintro rfl
    exact readAddr_append ip port rest

/-- An address is not read off when there are too few bytes for it. -/
theorem readAddr_eq_none {n : ℕ} {data : Bytes} :
    readAddr n data = none ↔ data.length < n + 2 := by
  unfold readAddr
  split
  · rename_i short
    have := splitVector_eq_none.mp short
    exact iff_of_true rfl (by omega)
  · rename_i ip rest first
    have length := congrArg List.length (splitVector_eq_some.mp first)
    rw [List.length_append, Vector.length_toList] at length
    split
    · rename_i short
      have := splitVector_eq_none.mp short
      exact iff_of_true rfl (by omega)
    · rename_i port rest' second
      have length' := congrArg List.length (splitVector_eq_some.mp second)
      rw [List.length_append, Vector.length_toList] at length'
      exact iff_of_false (Option.some_ne_none _) (by omega)

/-- A slice inside the payload. -/
theorem sliceAt_of_drop {n : ℕ} {data rest : Bytes} {i : ℕ} {slice : Vector UInt8 n}
    (left : data.drop i = slice.toList ++ rest) :
    sliceAt data i n = .ok slice ∧ data.drop (i + n) = rest := by
  have after := congrArg (List.drop n) left
  rw [List.drop_drop, List.drop_left' slice.length_toList] at after
  rw [sliceAt, left, splitVector_append]
  exact ⟨rfl, after⟩

/-- The two bytes of a port inside the payload. -/
theorem portAt_of_drop {data rest : Bytes} {i : ℕ} {port : UInt16}
    (left : data.drop i = (be16 port).toList ++ rest) :
    ∃ p0 p1, byteAt data i = .ok p0 ∧ byteAt data (i + 1) = .ok p1 ∧
      ofBe16 (twoBytes p0 p1) = port ∧ data.drop (i + 2) = rest := by
  obtain ⟨p0, p1, bytes⟩ := vector_two (be16 port)
  have spelled : (be16 port).toList = [p0, p1] := congrArg Vector.toList bytes
  rw [spelled] at left
  obtain ⟨first, left⟩ := byteAt_of_drop left
  obtain ⟨second, left⟩ := byteAt_of_drop left
  exact ⟨p0, p1, first, second, by rw [← bytes, ofBe16_be16], left⟩

theorem readV4At_cases {data rest : Bytes} {offset : ℕ} (left : data.drop offset = rest) :
    readAddr 4 rest = none ∧ readV4At data offset = .error .peerListTruncatedV4 ∨
      ∃ ip port rest', readAddr 4 rest = some (ip, port, rest') ∧
        readV4At data offset = .ok (.v4 ip port, offset + 6) ∧ data.drop (offset + 6) = rest' := by
  have length : (data.drop offset).length = data.length - offset := List.length_drop
  rw [left] at length
  rw [readV4At]
  cases address : readAddr 4 rest with
  | none =>
      have short := readAddr_eq_none.mp address
      rw [if_pos (by omega)]
      exact Or.inl ⟨rfl, rfl⟩
  | some read =>
      obtain ⟨ip, port, rest'⟩ := read
      have split := readAddr_eq_some.mp address
      obtain ⟨i0, i1, i2, i3, bytes⟩ := vector_four ip
      have size := congrArg List.length split
      rw [List.length_append, List.length_append, Vector.length_toList, Vector.length_toList] at size
      rw [split, bytes, List.append_assoc] at left
      obtain ⟨read0, left⟩ := byteAt_of_drop left
      obtain ⟨read1, left⟩ := byteAt_of_drop left
      obtain ⟨read2, left⟩ := byteAt_of_drop left
      obtain ⟨read3, left⟩ := byteAt_of_drop left
      obtain ⟨p0, p1, read4, read5, number, left⟩ := portAt_of_drop left
      refine Or.inr ⟨ip, port, rest', rfl, ?_, left⟩
      rw [if_neg (by omega)]
      simp only [read0, read1, read2, read3, read4, read5, number, bytes, bind, Except.bind]

theorem readV6At_cases {data rest : Bytes} {offset : ℕ} (left : data.drop offset = rest) :
    readAddr 16 rest = none ∧ readV6At data offset = .error .peerListTruncatedV6 ∨
      ∃ ip port rest', readAddr 16 rest = some (ip, port, rest') ∧
        readV6At data offset = .ok (.v6 ip port 0 0, offset + 18) ∧
        data.drop (offset + 18) = rest' := by
  have length : (data.drop offset).length = data.length - offset := List.length_drop
  rw [left] at length
  rw [readV6At]
  cases address : readAddr 16 rest with
  | none =>
      have short := readAddr_eq_none.mp address
      rw [if_pos (by omega)]
      exact Or.inl ⟨rfl, rfl⟩
  | some read =>
      obtain ⟨ip, port, rest'⟩ := read
      have split := readAddr_eq_some.mp address
      have size := congrArg List.length split
      rw [List.length_append, List.length_append, Vector.length_toList, Vector.length_toList] at size
      rw [split, List.append_assoc] at left
      obtain ⟨octets, left⟩ := sliceAt_of_drop left
      obtain ⟨p0, p1, read16, read17, number, left⟩ := portAt_of_drop left
      refine Or.inr ⟨ip, port, rest', rfl, ?_, left⟩
      rw [if_neg (by omega)]
      simp only [octets, read16, read17, number, bind, Except.bind]

/-- **The loop with its offset reads what is left of the payload.** -/
theorem readEntriesAt_eq (data : Bytes) (count offset : ℕ) :
    readEntriesAt data count offset = readEntries count (data.drop offset) := by
  induction count generalizing offset with
  | zero => rfl
  | succ count ih =>
      have length : data.length - offset = (data.drop offset).length := List.length_drop.symm
      rw [readEntriesAt, readEntryAt]
      match left : data.drop offset with
      | [] =>
          rw [left, List.length_nil] at length
          rw [if_pos (by omega), readEntries]
          rfl
      | [id] =>
          rw [left, List.length_singleton] at length
          obtain ⟨readId, left⟩ := byteAt_of_drop left
          rw [if_neg (by omega), readId, readEntries]
          simp only [byteAt_of_nil left, bind, Except.bind]
      | id :: ipVer :: rest =>
          rw [left, List.length_cons, List.length_cons] at length
          obtain ⟨readId, left⟩ := byteAt_of_drop left
          obtain ⟨readVer, left⟩ := byteAt_of_drop left
          rw [if_neg (by omega), readId, readEntries]
          simp only [readVer, bind, Except.bind]
          by_cases v4 : ipVer = 4
          · rw [if_pos v4, if_pos v4]
            rcases readV4At_cases left with ⟨short, truncated⟩ | ⟨ip, port, rest', address, read, left'⟩
            · rw [short, truncated]
            · rw [address, read]
              simp only [ih, left']
              cases readEntries count rest' with
              | error e => rfl
              | ok peers => rfl
          · rw [if_neg v4, if_neg v4]
            by_cases v6 : ipVer = 6
            · rw [if_pos v6, if_pos v6]
              rcases readV6At_cases left with
                ⟨short, truncated⟩ | ⟨ip, port, rest', address, read, left'⟩
              · rw [short, truncated]
              · rw [address, read]
                simp only [ih, left']
                cases readEntries count rest' with
                | error e => rfl
                | ok peers => rfl
            · rw [if_neg v6, if_neg v6]

/-- **The two models of `from_bytes` agree.** -/
theorem fromBytesIndexed_eq (data : Bytes) : fromBytesIndexed data = fromBytes data := by
  rw [fromBytesIndexed, fromBytes]
  cases split : splitVector 8 data with
  | none =>
      have := splitVector_eq_none.mp split
      rw [if_pos (by omega)]
  | some read =>
      obtain ⟨sessionId, rest⟩ := read
      have whole := splitVector_eq_some.mp split
      have length := congrArg List.length whole
      rw [List.length_append, Vector.length_toList] at length
      cases rest with
      | nil =>
          rw [List.length_nil] at length
          rw [if_pos (by omega)]
      | cons count rest =>
          rw [List.length_cons] at length
          obtain ⟨session, left⟩ := sliceAt_of_drop (i := 0) whole
          obtain ⟨readCount, left⟩ := byteAt_of_drop left
          rw [if_neg (by omega), session]
          simp only [readCount, bind, Except.bind, readEntriesAt_eq, left]
          cases readEntries count.toNat rest with
          | error e => rfl
          | ok peers => rfl

/-! ## Encoding and decoding -/

/-- What the loop does with the next entry: it stops with an error of its own, or it
reads the entry and goes on after it. -/
theorem readEntries_succ_cases (count : ℕ) (data : Bytes) :
    (∃ e, readEntries (count + 1) data = .error e ∧ e ≠ .indexOutOfBounds) ∨
      (∃ id, data = [id] ∧ readEntries (count + 1) data = .error .indexOutOfBounds) ∨
      ∃ entry rest, data = entryBytes entry ++ rest ∧ entry.2.listed = entry.2 ∧
        readEntries (count + 1) data = (readEntries count rest).map (entry :: ·) := by
  match data with
  | [] => exact Or.inl ⟨_, rfl, by decide⟩
  | [id] => exact Or.inr (Or.inl ⟨id, rfl, rfl⟩)
  | id :: ipVer :: rest =>
      rw [readEntries]
      by_cases v4 : ipVer = 4
      · subst v4
        rw [if_pos rfl]
        cases address : readAddr 4 rest with
        | none => exact Or.inl ⟨_, rfl, by decide⟩
        | some read =>
            obtain ⟨ip, port, rest'⟩ := read
            refine Or.inr (Or.inr ⟨(id, .v4 ip port), rest', ?_, rfl, rfl⟩)
            rw [readAddr_eq_some.mp address]
            rfl
      · rw [if_neg v4]
        by_cases v6 : ipVer = 6
        · subst v6
          rw [if_pos rfl]
          cases address : readAddr 16 rest with
          | none => exact Or.inl ⟨_, rfl, by decide⟩
          | some read =>
              obtain ⟨ip, port, rest'⟩ := read
              refine Or.inr (Or.inr ⟨(id, .v6 ip port 0 0), rest', ?_, rfl, rfl⟩)
              rw [readAddr_eq_some.mp address]
              rfl
        · rw [if_neg v6]
          exact Or.inl ⟨_, rfl, by rintro ⟨⟩⟩

/-- The entries that the loop reads are the bytes they are encoded to. -/
theorem readEntries_eq_ok {count : ℕ} {data : Bytes} {peers : List (UInt8 × SocketAddr)}
    (success : readEntries count data = .ok peers) :
    peers.length = count ∧ ∃ rest, data = peers.flatMap entryBytes ++ rest := by
  induction count generalizing data peers with
  | zero =>
      cases success
      exact ⟨rfl, data, rfl⟩
  | succ count ih =>
      rcases readEntries_succ_cases count data with
        ⟨e, failed, _⟩ | ⟨id, _, panicked⟩ | ⟨entry, rest, split, _, read⟩
      · rw [failed] at success
        cases success
      · rw [panicked] at success
        cases success
      · rw [read] at success
        cases later : readEntries count rest with
        | error e =>
            rw [later] at success
            cases success
        | ok others =>
            rw [later] at success
            cases success
            obtain ⟨length, rest', split'⟩ := ih later
            refine ⟨by rw [List.length_cons, length], rest', ?_⟩
            rw [split, split', List.flatMap_cons, List.append_assoc]

/-- What is decoded is encoded to the front of what it was decoded from. -/
theorem fromBytes_eq_ok {data : Bytes} {payload : PeerListPayload}
    (decoded : fromBytes data = .ok payload) :
    payload.peers.length ≤ 255 ∧ ∃ rest, data = payload.toBytes ++ rest := by
  unfold fromBytes at decoded
  split at decoded
  · cases decoded
  · cases decoded
  · rename_i sessionId count rest split
    cases entries : readEntries count.toNat rest with
    | error e =>
        rw [entries] at decoded
        cases decoded
    | ok peers =>
        rw [entries] at decoded
        cases decoded
        obtain ⟨length, rest', tail⟩ := readEntries_eq_ok entries
        have bound := count.toNat_lt
        refine ⟨by dsimp only; omega, rest', ?_⟩
        rw [splitVector_eq_some.mp split, toBytes, length, UInt8.ofNat_toNat, tail,
          List.append_assoc, List.cons_append]

/-- **Encoder and decoder are inverse.** What is encoded is decoded to the same session
and the same peers in the same order, less the flow info and scope of IPv6 addresses;
and what is decoded is encoded to the front of what it was decoded from. -/
theorem encode_decode_inverse :
    (∀ payload : PeerListPayload, payload.peers.length ≤ 255 →
      ∃ decoded, fromBytes payload.toBytes = .ok decoded ∧
        decoded.sessionId = payload.sessionId ∧
        decoded.peers = payload.peers.map fun entry =>
          (entry.1, SocketAddr.new entry.2.ip entry.2.port)) ∧
      ∀ data payload, fromBytes data = .ok payload → payload.toBytes <+: data := by
  constructor
  · intro payload short
    exact ⟨_, fromBytes_toBytes payload short, rfl, rfl⟩
  · intro data payload decoded
    obtain ⟨_, rest, split⟩ := fromBytes_eq_ok decoded
    exact ⟨rest, split.symm⟩

/-- A list of one IPv4 and one IPv6 peer. -/
def mixed : PeerListPayload where
  sessionId := Vector.replicate 8 0xAA
  peers := [(0, .v4 (fourBytes 10 0 0 2) 6000), (1, .v6 (Vector.replicate 16 7) 5000 3 4)]

/-- The flow info and the scope of the IPv6 peer are lost, all else is kept, and the
encoding is found again behind the decoded list. -/
theorem encode_decode_inverse_mixed :
    (∃ decoded, fromBytes mixed.toBytes = .ok decoded ∧
      decoded.sessionId = mixed.sessionId ∧
      decoded.peers = mixed.peers.map fun entry =>
        (entry.1, SocketAddr.new entry.2.ip entry.2.port)) ∧
      ∀ payload, fromBytes (mixed.toBytes ++ [1, 2]) = .ok payload →
        payload.toBytes <+: mixed.toBytes ++ [1, 2] :=
  ⟨encode_decode_inverse.1 mixed (by decide),
    fun payload decoded => encode_decode_inverse.2 _ payload decoded⟩

/-! ## Truncated payloads -/

/-- The payload ends right after the id of an entry that is still to come. -/
def EndsInId (data : Bytes) : Prop :=
  ∃ (sessionId : SessionId) (count : UInt8) (entries : List (UInt8 × SocketAddr)) (id : UInt8),
    entries.length < count.toNat ∧
      data = sessionId.toList ++ count :: (entries.flatMap entryBytes ++ [id])

theorem readEntries_panics {count : ℕ} {data : Bytes} :
    readEntries count data = .error .indexOutOfBounds ↔
      ∃ (entries : List (UInt8 × SocketAddr)) (id : UInt8),
        entries.length < count ∧ data = entries.flatMap entryBytes ++ [id] := by
  constructor
  · intro panics
    induction count generalizing data with
    | zero => cases panics
    | succ count ih =>
        rcases readEntries_succ_cases count data with
          ⟨e, failed, other⟩ | ⟨id, only, _⟩ | ⟨entry, rest, split, _, read⟩
        · rw [failed] at panics
          cases panics
          exact absurd rfl other
        · exact ⟨[], id, Nat.succ_pos count, only⟩
        · rw [read] at panics
          cases later : readEntries count rest with
          | ok others =>
              rw [later] at panics
              cases panics
          | error e =>
              rw [later] at panics
              cases panics
              obtain ⟨entries, id, fewer, split'⟩ := ih later
              refine ⟨entry :: entries, id, Nat.succ_lt_succ fewer, ?_⟩
              rw [split, split', List.flatMap_cons, List.append_assoc]
  · rintro ⟨entries, id, fewer, rfl⟩
    obtain ⟨left, enough⟩ : ∃ left, count = entries.length + (left + 1) :=
      ⟨count - entries.length - 1, by omega⟩
    rw [enough, readEntries_append]
    rfl

/-- **When the decoder panics.** -/
theorem fromBytes_panics {data : Bytes} :
    fromBytes data = .error .indexOutOfBounds ↔ EndsInId data := by
  constructor
  · intro panics
    unfold fromBytes at panics
    split at panics
    · cases panics
    · cases panics
    · rename_i sessionId count rest split
      have inside : readEntries count.toNat rest = .error .indexOutOfBounds := by
        cases entries : readEntries count.toNat rest with
        | ok peers =>
            rw [entries] at panics
            cases panics
        | error e =>
            rw [entries] at panics
            cases panics
            rfl
      obtain ⟨entries, id, fewer, tail⟩ := readEntries_panics.mp inside
      refine ⟨sessionId, count, entries, id, fewer, ?_⟩
      rw [splitVector_eq_some.mp split, tail]
  · rintro ⟨sessionId, count, entries, id, fewer, rfl⟩
    have inside := readEntries_panics.mpr ⟨entries, id, fewer, rfl⟩
    rw [fromBytes, splitVector_append]
    simp only [inside]
    rfl

/-- What a peer list does not keep is not encoded either. -/
theorem toBytes_listed (payload : PeerListPayload) : payload.listed.toBytes = payload.toBytes := by
  have entries : ∀ entry : UInt8 × SocketAddr,
      entryBytes (entry.1, entry.2.listed) = entryBytes entry := by
    rintro ⟨id, addr⟩
    cases addr with
    | v4 ip port => rfl
    | v6 ip port flowinfo scopeId => rfl
  rw [toBytes, toBytes, listed]
  simp only [List.length_map, List.flatMap_map, entries]

/-- A strict prefix of an encoded list is not decoded. -/
theorem fromBytes_prefix_ne_ok {payload : PeerListPayload} (short : payload.peers.length ≤ 255)
    {data : Bytes} (cut : data <+: payload.toBytes) (strict : data ≠ payload.toBytes)
    (decoded : PeerListPayload) : fromBytes data ≠ .ok decoded := by
  intro success
  obtain ⟨short', rest, split⟩ := fromBytes_eq_ok success
  obtain ⟨more, whole⟩ := cut
  have first := fromBytes_toBytes_append decoded short' (rest ++ more)
  have second := fromBytes_toBytes payload short
  rw [← List.append_assoc, ← split, whole, second] at first
  have same : payload.listed = decoded.listed := Except.ok.inj first
  have encoded : payload.toBytes = decoded.toBytes := by
    rw [← toBytes_listed, same, toBytes_listed]
  have length := congrArg List.length whole
  have length' := congrArg List.length split
  rw [List.length_append] at length length'
  rw [encoded] at length
  have none : more = [] := List.eq_nil_of_length_eq_zero (by omega)
  rw [none, List.append_nil] at whole
  exact strict whole

/-- **When decoding is safe.** The decoder does not index past the end of a payload, and
rejects a strict prefix of an encoded list with an error, exactly when the payload does
not end right after the id of an entry. -/
theorem safe_iff (data : Bytes) :
    (fromBytesIndexed data ≠ .error .indexOutOfBounds ↔ ¬ EndsInId data) ∧
      ∀ payload : PeerListPayload, payload.peers.length ≤ 255 → data <+: payload.toBytes →
        data ≠ payload.toBytes →
          ((∃ e, fromBytesIndexed data = .error e ∧ e ≠ .indexOutOfBounds) ↔
            ¬ EndsInId data) := by
  constructor
  · rw [fromBytesIndexed_eq, Ne, fromBytes_panics]
  · intro payload short cut strict
    rw [fromBytesIndexed_eq, ← fromBytes_panics]
    constructor
    · rintro ⟨e, failed, other⟩ panics
      rw [failed] at panics
      exact other (Except.error.inj panics)
    · intro safe
      cases result : fromBytes data with
      | ok decoded => exact absurd result (fromBytes_prefix_ne_ok short cut strict decoded)
      | error e => exact ⟨e, rfl, fun same => safe (by rw [result, same])⟩

/-- A list cut inside the address of its second peer is rejected. -/
theorem safe_cut_in_address :
    ∃ e, fromBytesIndexed (mixed.toBytes.take 20) = .error e ∧ e ≠ .indexOutOfBounds :=
  ((safe_iff (mixed.toBytes.take 20)).2 mixed (by decide) (List.take_prefix ..)
    (by decide +kernel)).mpr
    (by rw [← fromBytes_panics]; decide +kernel)

/-- **A list cut after the id of its first peer** is not rejected: the decoder indexes
past its end. -/
theorem cut_after_id_panics :
    ¬ ((∀ data, fromBytesIndexed data ≠ .error .indexOutOfBounds) ∧
      ∀ payload : PeerListPayload, payload.peers.length ≤ 255 → ∀ data, data <+: payload.toBytes →
        data ≠ payload.toBytes →
          ∃ e, fromBytesIndexed data = .error e ∧ e ≠ .indexOutOfBounds) := by
  rintro ⟨safe, _⟩
  exact absurd (by decide +kernel) (safe (mixed.toBytes.take 10))

end PeerListPayload

end VoiceChat
