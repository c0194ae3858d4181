import VoiceChat.Library.Bytes

/-!
# Authenticated encryption

An AEAD scheme with keys of 32 bytes and nonces of 24, as an interface: sealing
may refuse a message, opening may refuse a ciphertext. What a protocol relies on
is stated as separate properties, so that each result names the ones it uses.

* `Correct`: what was sealed opens, under the same key, nonce and associated
  data, to the message that was sealed.
* `KeyCommitting`: what was sealed under one key opens under no other.
* `OneKey`: a ciphertext opens under at most one key.
* `Seals`: messages up to a length are not refused.
* `Expands`: a ciphertext is longer than its message by a fixed number of bytes.

`transparent` is an AEAD with all of them but the last. Its ciphertexts carry the key, the
nonce and the associated data in the clear, in front of the message: it keeps no
secret, and it accepts exactly what was sealed. `tagged` puts the first bytes of
the key behind the message, as a tag of the size that real ones have.
-/

set_option autoImplicit false

namespace VoiceChat

abbrev Key := Vector UInt8 32

abbrev Nonce := Vector UInt8 24

/-- Authenticated encryption with associated data. -/
structure Aead where
  encrypt : Key → Nonce → (aad msg : Bytes) → Option Bytes
  decrypt : Key → Nonce → (aad ciphertext : Bytes) → Option Bytes

namespace Aead

/-- Opening inverts sealing. -/
def Correct (A : Aead) : Prop :=
  ∀ key nonce aad msg ciphertext, A.encrypt key nonce aad msg = some ciphertext →
    A.decrypt key nonce aad ciphertext = some msg

/-- What was sealed under one key opens under no other. -/
def KeyCommitting (A : Aead) : Prop :=
  ∀ key nonce aad msg ciphertext, A.encrypt key nonce aad msg = some ciphertext →
    ∀ key' nonce' aad', key' ≠ key → A.decrypt key' nonce' aad' ciphertext = none

/-- A ciphertext with its associated data opens under at most one key, whatever the
nonce. -/
def OneKey (A : Aead) : Prop :=
  ∀ key key' nonce nonce' aad ciphertext msg msg', A.decrypt key nonce aad ciphertext = some msg →
    A.decrypt key' nonce' aad ciphertext = some msg' → key = key'

/-- Messages up to a length are sealed. -/
def Seals (A : Aead) (bound : ℕ) : Prop :=
  ∀ key nonce aad msg, msg.length ≤ bound → (A.encrypt key nonce aad msg).isSome

/-- A ciphertext is longer than its message by so many bytes. -/
def Expands (A : Aead) (overhead : ℕ) : Prop :=
  ∀ key nonce aad msg ciphertext, A.encrypt key nonce aad msg = some ciphertext →
    ciphertext.length = msg.length + overhead

/-- The AEAD that writes key, nonce and associated data in front of the message. -/
def transparent : Aead where
  encrypt key nonce aad msg := some (key.toList ++ nonce.toList ++ aad ++ msg)
  decrypt key nonce aad ciphertext :=
    (key.toList ++ nonce.toList ++ aad).isPrefixOf? ciphertext

theorem transparent_correct : transparent.Correct := by
  intro key nonce aad msg ciphertext sealed
  cases sealed
  exact List.isPrefixOf?_eq_some_iff_append_eq.mpr rfl

theorem transparent_keyCommitting : transparent.KeyCommitting := by
  intro key nonce aad msg ciphertext sealed key' nonce' aad' different
  cases sealed
  refine Option.eq_none_iff_forall_ne_some.mpr fun msg' opened => ?_
  have same := List.isPrefixOf?_eq_some_iff_append_eq.mp opened
  simp only [List.append_assoc] at same
  have keys := (List.append_inj same (by simp)).1
  exact different (Vector.toList_inj.mp keys)

theorem transparent_decrypt_nil (key : Key) (nonce : Nonce) (aad : Bytes) :
    transparent.decrypt key nonce aad [] = none := by
  refine Option.eq_none_iff_forall_ne_some.mpr fun msg opened => ?_
  have lengths := congrArg List.length (List.isPrefixOf?_eq_some_iff_append_eq.mp opened)
  simp at lengths

theorem transparent_oneKey : transparent.OneKey := by
  intro key key' nonce nonce' aad ciphertext msg msg' opened opened'
  have first := List.isPrefixOf?_eq_some_iff_append_eq.mp opened
  have second := List.isPrefixOf?_eq_some_iff_append_eq.mp opened'
  have same := first.trans second.symm
  simp only [List.append_assoc] at same
  exact Vector.toList_inj.mp (List.append_inj same (by simp)).1

theorem transparent_seals (bound : ℕ) : transparent.Seals bound := fun _ _ _ _ _ => rfl

/-- The AEAD that writes the first sixteen bytes of the key behind the message. -/
def tagged : Aead where
  encrypt key _ _ msg := some (msg ++ key.toList.take 16)
  decrypt key _ _ ciphertext :=
    if ciphertext.drop (ciphertext.length - 16) = key.toList.take 16 then
      some (ciphertext.take (ciphertext.length - 16))
    else none

theorem tagged_expands : tagged.Expands 16 := by
  intro key nonce aad msg ciphertext sealed
  cases sealed
  simp

theorem tagged_correct : tagged.Correct := by
  intro key nonce aad msg ciphertext sealed
  have length := tagged_expands key nonce aad msg ciphertext sealed
  cases sealed
  have before : (msg ++ key.toList.take 16).length - 16 = msg.length := by
    rw [length, Nat.add_sub_cancel]
  simp only [tagged, before, List.drop_left, List.take_left, if_true]

end Aead

end VoiceChat
