import Mathlib.Data.Nat.Bitwise
import VoiceChat.Error
import VoiceChat.Library.Aead
import VoiceChat.Net

/-!
# Encryption contexts and replay filters

The nonce of a packet is built from the session id and four header values, never
transmitted (`buildNonce`); two packets share a nonce exactly when they agree on
all of them (`buildNonce_inj`). A context holds a key, a session id and a counter
that its owner draws from. A replay filter remembers the highest counter it has
accepted and the sixty-three before it; what it has seen it goes on refusing
(`Seen.checkAndAccept`).
-/

set_option autoImplicit false

namespace VoiceChat

def authTagLen : Nat := 16
def slidingWindowSize : UInt64 := 64

inductive Direction where
  | send
  | recv
  deriving DecidableEq

def Direction.byte : Direction → UInt8
  | .send => 0x00
  | .recv => 0x01

/-- The 24-byte nonce: session id, peer id, direction, sequence number, counter
and eight zero bytes. -/
def buildNonce (sessionId : SessionId) (peerId : UInt8) (direction : Direction) (seqNum : UInt16)
    (counter : UInt32) : Nonce :=
  (sessionId ++ #v[peerId, direction.byte] ++ be16 seqNum ++ be32 counter ++
    (Vector.replicate 8 0 : Vector UInt8 8) : Vector UInt8 (8 + 2 + 2 + 4 + 8))

/-- **Equal nonces come from equal parts.** -/
theorem buildNonce_inj {s s' : SessionId} {p p' : UInt8} {d : Direction} {q q' : UInt16}
    {c c' : UInt32} :
    buildNonce s p d q c = buildNonce s' p' d q' c' ↔ s = s' ∧ p = p' ∧ q = q' ∧ c = c' := by
  constructor
  · intro same
    obtain ⟨front, _⟩ := Vector.append_inj same
    obtain ⟨front, counter⟩ := Vector.append_inj front
    obtain ⟨front, seqNum⟩ := Vector.append_inj front
    obtain ⟨session, ids⟩ := Vector.append_inj front
    have ids' : [p, d.byte] = [p', d.byte] := congrArg Vector.toList ids
    exact ⟨session, (List.cons.inj ids').1, be16_inj.mp seqNum, be32_inj.mp counter⟩
  · rintro ⟨rfl, rfl, rfl, rfl⟩
    rfl

/-! ## Contexts -/

/-- Per-session encryption context. -/
structure CryptoContext where
  /-- The key of the cipher. -/
  key : Key
  sessionId : SessionId
  /-- Monotonic send counter, separate from the sequence number. -/
  sendCounter : UInt32
  deriving DecidableEq

namespace CryptoContext

def new (key : Key) (sessionId : SessionId) : CryptoContext where
  key := key
  sessionId := sessionId
  sendCounter := 0

/-- Reserve the next counter value. -/
def nextCounter (ctx : CryptoContext) : Except Error (UInt32 × CryptoContext) :=
  if ctx.sendCounter = 0xFFFFFFFF then
    .error .sendCounterOverflow
  else
    .ok (ctx.sendCounter, { ctx with sendCounter := ctx.sendCounter + 1 })

/-- Encrypt a payload. The header is authenticated; the nonce is built from the
arguments, which the caller has placed in the header. -/
def encrypt (aead : Aead) (ctx : CryptoContext) (header : Vector UInt8 8) (payload : Bytes)
    (peerId : UInt8) (seqNum : UInt16) (counter : UInt32) : Except Error Bytes :=
  match aead.encrypt ctx.key (buildNonce ctx.sessionId peerId .send seqNum counter)
      header.toList payload with
  | some ciphertext => .ok ciphertext
  | none => .error .encryptFailed

/-- Decrypt and authenticate a payload, under the nonce of its sender. -/
def decrypt (aead : Aead) (ctx : CryptoContext) (header : Vector UInt8 8)
    (ciphertextWithTag : Bytes) (peerId : UInt8) (seqNum : UInt16) (counter : UInt32) :
    Except Error Bytes :=
  match aead.decrypt ctx.key (buildNonce ctx.sessionId peerId .send seqNum counter)
      header.toList ciphertextWithTag with
  | some payload => .ok payload
  | none => .error .decryptFailed

@[simp] theorem new_key (key : Key) (sessionId : SessionId) : (new key sessionId).key = key := rfl

@[simp] theorem new_sessionId (key : Key) (sessionId : SessionId) :
    (new key sessionId).sessionId = sessionId := rfl

@[simp] theorem new_sendCounter (key : Key) (sessionId : SessionId) :
    (new key sessionId).sendCounter = 0 := rfl

/-- A drawn counter is the one the context held, and the context moves on by
one. -/
theorem nextCounter_eq_ok {ctx ctx' : CryptoContext} {counter : UInt32}
    (drawn : ctx.nextCounter = .ok (counter, ctx')) :
    counter = ctx.sendCounter ∧ ctx'.key = ctx.key ∧ ctx'.sessionId = ctx.sessionId ∧
      ctx'.sendCounter.toNat = ctx.sendCounter.toNat + 1 := by
  unfold nextCounter at drawn
  split_ifs at drawn with last
  cases drawn
  have bound := ctx.sendCounter.toNat_lt
  have below : ctx.sendCounter.toNat ≠ 4294967295 := fun same =>
    last (UInt32.toNat_inj.mp same)
  refine ⟨rfl, rfl, rfl, ?_⟩
  change (ctx.sendCounter + 1).toNat = _
  simp only [UInt32.toNat_add, UInt32.reduceToNat]
  omega

/-- What a context encrypts, a context with the same key and session id
decrypts. -/
theorem decrypt_of_encrypt {aead : Aead} (correct : aead.Correct) {ctx ctx' : CryptoContext}
    (key : ctx'.key = ctx.key) (sessionId : ctx'.sessionId = ctx.sessionId)
    {header : Vector UInt8 8} {payload ciphertext : Bytes} {peerId : UInt8} {seqNum : UInt16}
    {counter : UInt32}
    (encrypted : ctx.encrypt aead header payload peerId seqNum counter = .ok ciphertext) :
    ctx'.decrypt aead header ciphertext peerId seqNum counter = .ok payload := by
  unfold encrypt at encrypted
  split at encrypted
  · rename_i sealed
    cases encrypted
    rw [decrypt, key, sessionId, correct _ _ _ _ _ sealed]
  · cases encrypted

/-- What a context encrypts, a context with another key refuses. -/
theorem decrypt_of_encrypt_of_ne {aead : Aead} (committing : aead.KeyCommitting)
    {ctx ctx' : CryptoContext} (different : ctx'.key ≠ ctx.key) {header header' : Vector UInt8 8}
    {payload ciphertext : Bytes} {peerId peerId' : UInt8} {seqNum seqNum' : UInt16}
    {counter counter' : UInt32}
    (encrypted : ctx.encrypt aead header payload peerId seqNum counter = .ok ciphertext) :
    ctx'.decrypt aead header' ciphertext peerId' seqNum' counter' = .error .decryptFailed := by
  unfold encrypt at encrypted
  split at encrypted
  · rename_i sealed
    cases encrypted
    rw [decrypt, committing _ _ _ _ _ sealed _ _ _ different]
  · cases encrypted

end CryptoContext

/-! ## Replay filters -/

/-- Sliding window replay protection. -/
structure ReplayFilter where
  /-- Highest accepted counter value. -/
  highest : UInt64
  /-- Bit `i` stands for the counter value `highest - i`. -/
  bitmap : UInt64
  deriving DecidableEq

namespace ReplayFilter

def new : ReplayFilter where
  highest := 0
  bitmap := 0

/-- Whether the counter is acceptable, and the filter with it accepted. -/
def checkAndAccept (filter : ReplayFilter) (counter : UInt32) : Bool × ReplayFilter :=
  let counter := counter.toUInt64
  if counter > filter.highest then
    let shift := counter - filter.highest
    let bitmap := if shift ≥ slidingWindowSize then 0 else filter.bitmap <<< shift
    (true, { highest := counter, bitmap := bitmap ||| 1 })
  else
    let diff := filter.highest - counter
    if diff ≥ slidingWindowSize then
      (false, filter)
    else
      let bit : UInt64 := 1 <<< diff
      if filter.bitmap &&& bit ≠ 0 then
        (false, filter)
      else
        (true, { filter with bitmap := filter.bitmap ||| bit })

/-- Every counter the filter has accepted is below the bound: either it has
accepted none, or the highest one is below. -/
def Below (filter : ReplayFilter) (bound : ℕ) : Prop :=
  filter = new ∨ filter.highest.toNat < bound

theorem below_new (bound : ℕ) : new.Below bound := Or.inl rfl

theorem Below.mono {filter : ReplayFilter} {bound bound' : ℕ} (below : filter.Below bound)
    (larger : bound ≤ bound') : filter.Below bound' :=
  below.imp_right fun less => Nat.lt_of_lt_of_le less larger

/-- **A counter above everything accepted is accepted**, and nothing above it has
been accepted then. -/
theorem checkAndAccept_of_below {filter : ReplayFilter} {counter : UInt32}
    (below : filter.Below counter.toNat) :
    (filter.checkAndAccept counter).1 = true ∧
      (filter.checkAndAccept counter).2.Below (counter.toNat + 1) := by
  by_cases higher : counter.toUInt64 > filter.highest
  · rw [checkAndAccept, if_pos higher]
    refine ⟨rfl, Or.inr ?_⟩
    change counter.toUInt64.toNat < _
    rw [UInt32.toNat_toUInt64]
    exact Nat.lt_succ_self _
  · rcases below with rfl | less
    · have zero : counter = 0 := by
        have : ¬ (0 : UInt64).toNat < counter.toUInt64.toNat := fun lt =>
          higher (UInt64.lt_iff_toNat_lt.mpr lt)
        rw [UInt32.toNat_toUInt64] at this
        exact UInt32.toNat_inj.mp (Nat.eq_zero_of_not_pos this)
      subst zero
      exact ⟨by decide +kernel, Or.inr (by decide +kernel)⟩
    · refine absurd (UInt64.lt_iff_toNat_lt.mpr ?_) higher
      rwa [UInt32.toNat_toUInt64]

/-! ### What a filter has seen -/

/-- The filter refuses the counter: it has accepted it, or one so much higher that it
no longer tells. -/
def Seen (filter : ReplayFilter) (counter : UInt32) : Prop :=
  counter.toNat ≤ filter.highest.toNat ∧
    (64 ≤ filter.highest.toNat - counter.toNat ∨
      filter.bitmap.toNat.testBit (filter.highest.toNat - counter.toNat) = true)

theorem toNat_bit {diff : UInt64} (small : diff.toNat < 64) :
    ((1 : UInt64) <<< diff).toNat = 2 ^ diff.toNat := by
  rw [UInt64.toNat_shiftLeft, Nat.mod_eq_of_lt small]
  change 1 <<< diff.toNat % 2 ^ 64 = _
  rw [Nat.one_shiftLeft, Nat.mod_eq_of_lt (Nat.pow_lt_pow_right (by decide) small)]

theorem far_iff {diff : UInt64} : diff ≥ slidingWindowSize ↔ 64 ≤ diff.toNat :=
  UInt64.le_iff_toNat_le

/-- What is in the bitmap after it was moved for a higher counter. -/
theorem testBit_moved {bitmap shift : UInt64} (small : shift.toNat < 64) (n : ℕ) :
    ((bitmap <<< shift) ||| 1).toNat.testBit n = true ↔
      n = 0 ∨ n < 64 ∧ shift.toNat ≤ n ∧ bitmap.toNat.testBit (n - shift.toNat) = true := by
  have one : Nat.testBit (1 : UInt64).toNat n = true ↔ n = 0 :=
    Nat.testBit_one_eq_true_iff_self_eq_zero
  rw [UInt64.toNat_or, UInt64.toNat_shiftLeft, Nat.mod_eq_of_lt small, Nat.testBit_or,
    Bool.or_eq_true, one, Nat.testBit_mod_two_pow, Nat.testBit_shiftLeft]
  simp only [Bool.and_eq_true, decide_eq_true_eq]
  exact or_comm

/-- What is in the bitmap after a counter was entered. -/
theorem testBit_entered (bitmap : UInt64) {diff : UInt64} (small : diff.toNat < 64) (n : ℕ) :
    (bitmap ||| (1 <<< diff)).toNat.testBit n = true ↔
      bitmap.toNat.testBit n = true ∨ diff.toNat = n := by
  rw [UInt64.toNat_or, toNat_bit small, Nat.testBit_or, Bool.or_eq_true, Nat.testBit_two_pow,
    decide_eq_true_eq]

theorem bit_ne_zero {bitmap diff : UInt64} (small : diff.toNat < 64) :
    bitmap &&& (1 <<< diff) ≠ 0 ↔ bitmap.toNat.testBit diff.toNat = true := by
  have zero : (bitmap &&& (1 <<< diff)) = 0 ↔ (bitmap &&& (1 <<< diff)).toNat = 0 :=
    UInt64.toNat_inj.symm
  rw [Ne, zero, UInt64.toNat_and, toNat_bit small, Nat.and_two_pow]
  cases bitmap.toNat.testBit diff.toNat with
  | false => simp
  | true => simp

/-- The bitmap has the mark of a counter value. -/
def Marked (filter : ReplayFilter) (x : ℕ) : Prop :=
  x ≤ filter.highest.toNat ∧ filter.bitmap.toNat.testBit (filter.highest.toNat - x) = true

/-- **What `checkAndAccept` does.** A counter that the filter has seen leaves it as it
is. Any other raises the highest one when it is above, and within the window behind the
highest one it adds its own mark to those there were. -/
theorem checkAndAccept_cases (filter : ReplayFilter) (counter : UInt32) :
    filter.Seen counter ∧ filter.checkAndAccept counter = (false, filter) ∨
      ¬ filter.Seen counter ∧ ∃ filter', filter.checkAndAccept counter = (true, filter') ∧
        filter'.highest.toNat = max filter.highest.toNat counter.toNat ∧
        ∀ x, filter'.highest.toNat - x < 64 →
          (filter'.Marked x ↔ x = counter.toNat ∨ filter.Marked x) := by
  have wide : counter.toUInt64.toNat = counter.toNat := UInt32.toNat_toUInt64 counter
  unfold checkAndAccept Seen Marked
  dsimp only
  by_cases higher : counter.toUInt64 > filter.highest
  · have less : filter.highest.toNat < counter.toNat := wide ▸ UInt64.lt_iff_toNat_lt.mp higher
    have shift := UInt64.toNat_sub_of_le _ _ (UInt64.le_of_lt higher)
    rw [wide] at shift
    rw [if_pos higher]
    refine Or.inr ⟨fun seen => by omega, _, rfl, by rw [wide]; omega, fun x inside => ?_⟩
    dsimp only at inside ⊢
    rw [wide] at inside ⊢
    by_cases far : counter.toUInt64 - filter.highest ≥ slidingWindowSize
    · have := far_iff.mp far
      have one : Nat.testBit (1 : UInt64).toNat (counter.toNat - x) = true ↔
          counter.toNat - x = 0 := Nat.testBit_one_eq_true_iff_self_eq_zero
      rw [if_pos far, UInt64.zero_or, one]
      omega
    · rw [if_neg far, testBit_moved (Nat.lt_of_not_le (mt far_iff.mpr far)), shift]
      constructor
      · rintro ⟨reached, zero | ⟨_, passed, marked⟩⟩
        · exact Or.inl (by omega)
        · rw [show counter.toNat - x - (counter.toNat - filter.highest.toNat) =
            filter.highest.toNat - x by omega] at marked
          exact Or.inr ⟨by omega, marked⟩
      · rintro (rfl | ⟨reached, marked⟩)
        · exact ⟨Nat.le_refl _, Or.inl (Nat.sub_self _)⟩
        · refine ⟨by omega, Or.inr ⟨inside, by omega, ?_⟩⟩
          rwa [show counter.toNat - x - (counter.toNat - filter.highest.toNat) =
            filter.highest.toNat - x by omega]
  · have below : counter.toUInt64 ≤ filter.highest := UInt64.not_lt.mp higher
    have reached : counter.toNat ≤ filter.highest.toNat := wide ▸ UInt64.le_iff_toNat_le.mp below
    have diff := UInt64.toNat_sub_of_le _ _ below
    rw [wide] at diff
    rw [if_neg higher]
    split_ifs with far marked
    · exact Or.inl ⟨⟨reached, Or.inl (diff ▸ far_iff.mp far)⟩, rfl⟩
    · rw [bit_ne_zero (Nat.lt_of_not_le (mt far_iff.mpr far)), diff] at marked
      exact Or.inl ⟨⟨reached, Or.inr marked⟩, rfl⟩
    · have small := Nat.lt_of_not_le (mt far_iff.mpr far)
      rw [bit_ne_zero small, diff] at marked
      rw [diff] at small
      refine Or.inr ⟨fun seen => seen.2.elim (by omega) marked, _, rfl, by
        dsimp only; omega, fun x inside => ?_⟩
      dsimp only
      rw [testBit_entered filter.bitmap (diff.symm ▸ small), diff]
      constructor
      · rintro ⟨before, old | new⟩
        · exact Or.inr ⟨before, old⟩
        · exact Or.inl (by omega)
      · rintro (rfl | ⟨before, old⟩)
        · exact ⟨reached, Or.inr rfl⟩
        · exact ⟨before, Or.inl old⟩

/-- A filter has seen what is marked, and all that lies behind the window. -/
theorem seen_iff (filter : ReplayFilter) (counter : UInt32) :
    filter.Seen counter ↔ counter.toNat + 64 ≤ filter.highest.toNat ∨
      filter.Marked counter.toNat := by
  unfold Seen Marked
  constructor
  · rintro ⟨reached, far | marked⟩
    · exact Or.inl (by omega)
    · exact Or.inr ⟨reached, marked⟩
  · rintro (far | ⟨reached, marked⟩)
    · exact ⟨by omega, Or.inl (by omega)⟩
    · exact ⟨reached, Or.inr marked⟩

/-- A filter accepts exactly what it has not seen. -/
theorem checkAndAccept_fst (filter : ReplayFilter) (counter : UInt32) :
    (filter.checkAndAccept counter).1 = true ↔ ¬ filter.Seen counter := by
  rcases checkAndAccept_cases filter counter with ⟨seen, refused⟩ | ⟨fresh, _, accepted, _⟩
  · rw [refused]
    exact iff_of_false Bool.false_ne_true fun fresh => fresh seen
  · rw [accepted]
    exact iff_of_true rfl fresh

/-- **What a filter has seen it goes on refusing**, and what it is shown it has seen. -/
theorem Seen.checkAndAccept {filter : ReplayFilter} {counter other : UInt32}
    (seen : filter.Seen other ∨ other = counter) :
    (filter.checkAndAccept counter).2.Seen other := by
  rcases checkAndAccept_cases filter counter with
    ⟨known, refused⟩ | ⟨_, filter', accepted, highest, marks⟩
  · rw [refused]
    rcases seen with seen | rfl
    · exact seen
    · exact known
  · rw [accepted, seen_iff]
    rcases Nat.lt_or_ge (filter'.highest.toNat - other.toNat) 64 with inside | outside
    · rw [marks _ inside, seen_iff] at *
      rcases seen with (far | marked) | rfl
      · exact Or.inl (by omega)
      · exact Or.inr (Or.inr marked)
      · exact Or.inr (Or.inl rfl)
    · exact Or.inl (by dsimp only; omega)

end ReplayFilter

end VoiceChat
