import Mathlib.Data.Sym.Sym2
import VoiceChat.Net
import VoiceChat.Primitives

/-!
# Key exchange

Each node has one X25519 key pair per session. The key of a pair of peers is
derived from the shared secret with the session id as salt and the two sorted
peer ids in the info string, so that both sides derive the same one
(`derivePeerKey_comm`). The info string tells any two pairs of peers apart
(`info_inj`), and the salt any two sessions.
-/

set_option autoImplicit false

namespace VoiceChat

/-- An X25519 key pair, by its secret. -/
structure KeyExchange where
  secret : Key
  deriving DecidableEq

namespace KeyExchange

variable {D : Type}

def publicKeyBytes (prim : Primitives D) (kx : KeyExchange) : Key := prim.publicKey kx.secret

/-- The bytes of `voicechat-audio`. -/
def infoPrefix : Bytes :=
  [0x76, 0x6f, 0x69, 0x63, 0x65, 0x63, 0x68, 0x61, 0x74, 0x2d, 0x61, 0x75, 0x64, 0x69, 0x6f]

/-- The info string of a pair of peers, with the smaller id first. -/
def info (localId peerId : UInt8) : Bytes :=
  if localId < peerId then infoPrefix ++ [localId, peerId] else infoPrefix ++ [peerId, localId]

/-- Derive the session key of a peer from its public key. -/
def derivePeerKey (prim : Primitives D) (kx : KeyExchange) (peerPublic : Key)
    (sessionId : SessionId) (localId peerId : UInt8) : Except Error Key :=
  let sharedSecret := prim.diffieHellman kx.secret peerPublic
  if sharedSecret.toList.all (· == 0) then
    .error .zeroSharedSecret
  else
    .ok (prim.hkdf sessionId.toList sharedSecret.toList (info localId peerId))

/-- What the key of a peer is derived from: the salt, the shared secret and the info
string. -/
def hkdfInputs (prim : Primitives D) (kx : KeyExchange) (peerPublic : Key)
    (sessionId : SessionId) (localId peerId : UInt8) : Bytes × Bytes × Bytes :=
  (sessionId.toList, (prim.diffieHellman kx.secret peerPublic).toList, info localId peerId)

theorem derivePeerKey_eq_ok {prim : Primitives D} {kx : KeyExchange} {peerPublic : Key}
    {sessionId : SessionId} {localId peerId : UInt8} {key : Key}
    (derived : kx.derivePeerKey prim peerPublic sessionId localId peerId = .ok key) :
    key = prim.hkdf (kx.hkdfInputs prim peerPublic sessionId localId peerId).1
      (kx.hkdfInputs prim peerPublic sessionId localId peerId).2.1
      (kx.hkdfInputs prim peerPublic sessionId localId peerId).2.2 := by
  unfold derivePeerKey at derived
  dsimp only at derived
  split_ifs at derived
  cases derived
  rfl

/-- X25519 is commutative: both sides of an exchange compute the same secret. -/
def Commutes (prim : Primitives D) : Prop :=
  ∀ a b, prim.diffieHellman a (prim.publicKey b) = prim.diffieHellman b (prim.publicKey a)

theorem info_comm (a b : UInt8) : info a b = info b a := by
  unfold info
  split_ifs with first second second
  · exact absurd (UInt8.lt_trans first second) (UInt8.lt_irrefl a)
  · rfl
  · rfl
  · have same : a = b := UInt8.le_antisymm (UInt8.not_lt.mp second) (UInt8.not_lt.mp first)
    rw [same]

/-- **Different pairs of ids have different info strings.** -/
theorem info_inj {a b c d : UInt8} : info a b = info c d ↔ s(a, b) = s(c, d) := by
  have spelled : ∀ a b : UInt8, ∃ x y, info a b = infoPrefix ++ [x, y] ∧ s(x, y) = s(a, b) := by
    intro a b
    unfold info
    split_ifs
    · exact ⟨a, b, rfl, rfl⟩
    · exact ⟨b, a, rfl, Sym2.eq_swap⟩
  constructor
  · intro same
    obtain ⟨x, y, first, pair⟩ := spelled a b
    obtain ⟨x', y', second, pair'⟩ := spelled c d
    rw [first, second] at same
    obtain ⟨rfl, rfl⟩ : x = x' ∧ y = y' := by simpa using List.append_cancel_left same
    exact pair.symm.trans pair'
  · intro same
    rcases Sym2.eq_iff.mp same with ⟨rfl, rfl⟩ | ⟨rfl, rfl⟩
    · rfl
    · exact info_comm a b

/-- **Both sides derive from the same inputs.** -/
theorem hkdfInputs_comm {prim : Primitives D} (commutes : Commutes prim) (a b : KeyExchange)
    (sessionId : SessionId) (idA idB : UInt8) :
    a.hkdfInputs prim (b.publicKeyBytes prim) sessionId idA idB =
      b.hkdfInputs prim (a.publicKeyBytes prim) sessionId idB idA := by
  have shared : prim.diffieHellman a.secret (b.publicKeyBytes prim) =
      prim.diffieHellman b.secret (a.publicKeyBytes prim) := commutes a.secret b.secret
  rw [hkdfInputs, hkdfInputs, shared, info_comm idA idB]

/-- **Both sides derive the same key.** -/
theorem derivePeerKey_comm {prim : Primitives D} (commutes : Commutes prim) (a b : KeyExchange)
    (sessionId : SessionId) (idA idB : UInt8) :
    a.derivePeerKey prim (b.publicKeyBytes prim) sessionId idA idB =
      b.derivePeerKey prim (a.publicKeyBytes prim) sessionId idB idA := by
  have shared : prim.diffieHellman a.secret (b.publicKeyBytes prim) =
      prim.diffieHellman b.secret (a.publicKeyBytes prim) := commutes a.secret b.secret
  unfold derivePeerKey
  rw [shared, info_comm idA idB]

end KeyExchange

/-- Primitives to compute with: the transparent cipher, and a Diffie-Hellman
exchange in the group of byte strings under exclusive or. -/
def Primitives.transparent : Primitives Unit where
  aead := Aead.transparent
  publicKey secret := secret
  diffieHellman a b := a.zipWith (· ^^^ ·) b
  hkdf _ ikm _ := Vector.ofFn fun i => ikm.getD i 0
  decode _ plaintext := ((), some (plaintext.map fun b => Int16.ofNat b.toNat))
  decodePlc _ := ((), some [])

theorem Primitives.transparent_commutes : KeyExchange.Commutes Primitives.transparent := by
  intro a b
  refine Vector.ext fun i inside => ?_
  simp only [transparent, Vector.getElem_zipWith]
  exact UInt8.xor_comm _ _

/-- KEY_EXCHANGE payload: a public key. -/
structure KeyExchangePayload where
  publicKey : Key
  deriving DecidableEq

namespace KeyExchangePayload

def toBytes (payload : KeyExchangePayload) : Bytes := payload.publicKey.toList

def fromBytes (data : Bytes) : Except Error KeyExchangePayload :=
  match splitVector 32 data with
  | some (publicKey, _) => .ok ⟨publicKey⟩
  | none => .error (.keyExchangeTooShort data.length)

@[simp] theorem fromBytes_toBytes (payload : KeyExchangePayload) :
    fromBytes payload.toBytes = .ok payload := by
  have := splitVector_append payload.publicKey []
  rw [List.append_nil] at this
  rw [fromBytes, toBytes, this]

end KeyExchangePayload

end VoiceChat
