import Mathlib
import TokenMetadata.Proofs.Signing.AddressGrammar
import TokenMetadata.Proofs.Signing.Equation
import TokenMetadata.Proofs.Signing.Verification

/-!
# Accepted texts

A text is accepted for an address exactly when it is base64 of a stack of one item, the item is a
signature with or without the byte of its hash type, and the signature meets its equation for the
key of the address. Whatever else an address or a text is, it is turned down.
-/

namespace TokenMetadata

open Curve Taproot

namespace Simple

/-- The item is a signature and, unless the hash type is the default, a one behind it. -/
def IsMarked : Message.HashType → Bytes → Prop
  | .default, item => item.length = 64
  | .all, item => item.length = 65 ∧ item.getLast? = some 1

/-- The text is base64 of a stack whose only item signs the message for the key of the address. -/
def IsSignedText (address : String) (m : Bytes) (text : String) : Prop :=
  ∃ stack item key hashType, Base64.decode text = .ok stack ∧ Witness.parse stack = .ok [item] ∧
    IsMarked hashType item ∧ scriptOfAddress address = .ok (script key) ∧
      Schnorr.IsSignature (Message.sighash (script key) (Message.toSpendId (script key) m) hashType)
        key (item.take 64)

theorem signatureOf?_eq_some_iff {items : List Bytes} {sig : Bytes} {hashType : Message.HashType} :
    signatureOf? items = some (sig, hashType) ↔
      ∃ item, items = [item] ∧ IsMarked hashType item ∧ item.take 64 = sig := by
  constructor
  · intro h
    simp only [signatureOf?] at h
    split at h
    · rename_i item
      split at h
      · rename_i hlength
        obtain ⟨rfl, rfl⟩ := Prod.mk.inj (Option.some.inj h)
        exact ⟨item, rfl, hlength, List.take_of_length_le hlength.le⟩
      split at h
      · rename_i hmarked
        obtain ⟨rfl, rfl⟩ := Prod.mk.inj (Option.some.inj h)
        exact ⟨item, rfl, hmarked, rfl⟩
      · cases h
    · cases h
  · rintro ⟨item, rfl, hmarked, rfl⟩
    cases hashType with
    | default =>
      have hlength : item.length = 64 := hmarked
      rw [signatureOf?, if_pos hlength, List.take_of_length_le hlength.le]
    | all =>
      obtain ⟨hlength, hlast⟩ := hmarked
      simp only [signatureOf?, hlength, hlast, and_self, if_pos]
      rfl

theorem scriptOfAddress_eq_script_iff {address : String} {key : Bytes} :
    scriptOfAddress address = .ok (script key) ↔ keyOfAddress address = .ok key := by
  simp [scriptOfAddress, map_eq_ok_iff, script]

theorem verify_eq_true_iff_isSignedText {address text : String} {m : Bytes} :
    verify address m text = true ↔ IsSignedText address m text := by
  simp only [IsSignedText, verify_eq_true_iff, signatureOf?_eq_some_iff,
    scriptOfAddress_eq_script_iff, Schnorr.verify_eq_true_iff_isSignature]
  constructor
  · rintro ⟨stack, _, key, _, hashType, hdecode, hparse, hkey, ⟨item, rfl, hmarked, rfl⟩, hsig⟩
    exact ⟨stack, item, key, hashType, hdecode, hparse, hmarked, hkey, hsig⟩
  · rintro ⟨stack, item, key, hashType, hdecode, hparse, hmarked, hkey, hsig⟩
    exact ⟨stack, [item], key, _, hashType, hdecode, hparse, hkey, ⟨item, rfl, hmarked, rfl⟩, hsig⟩

/-- Every text is accepted or turned down, and it is accepted exactly when it is a signed text. An
item with a byte behind its signature is accepted with no other byte than the one. -/
theorem accepted_texts_are_signatures :
    (∀ (address : String) (m : Bytes) (text : String),
      verify address m text = true ↔ IsSignedText address m text) ∧
    ∀ (address : String) (m : Bytes) (text : String) (stack item : Bytes),
      Base64.decode text = .ok stack → Witness.parse stack = .ok [item] → item.length = 65 →
        item.getLast? ≠ some 1 → verify address m text = false := by
  refine ⟨fun address m text => verify_eq_true_iff_isSignedText, ?_⟩
  intro address m text stack item hdecode hparse hlength hlast
  rw [← Bool.not_eq_true, verify_eq_true_iff_isSignedText]
  rintro ⟨stack', item', key, hashType, hdecode', hparse', hmarked, -, -⟩
  obtain rfl := Except.ok.inj (hdecode.symm.trans hdecode')
  obtain ⟨rfl, -⟩ := List.cons.inj (Except.ok.inj (hparse.symm.trans hparse'))
  cases hashType with
  | default =>
    rw [IsMarked, hlength] at hmarked
    cases hmarked
  | all => exact hlast hmarked.2

theorem accepted_texts_are_signatures_zero_mark :
    (∃ text, verify addressOfOne [1] text = true ∧ IsSignedText addressOfOne [1] text) ∧
      verify addressOfOne [1] (Base64.encode (Witness.serialize [List.replicate 65 0])) = false := by
  obtain ⟨hiff, hother⟩ := accepted_texts_are_signatures
  constructor
  · obtain ⟨t, key, hunlock, hwitness⟩ := witness_one
    obtain ⟨sig, -, hstack⟩ := hwitness [1] .default (by decide)
    obtain ⟨-, -, -, hverify⟩ := verify_of_witness hunlock hstack
    exact ⟨_, hverify, (hiff _ _ _).mp hverify⟩
  · have hlength : (List.replicate 65 0 : Bytes).length = 65 := by decide
    have hparse := Witness.parse_serialize_one (hlength.trans_lt (by decide))
    exact hother _ _ _ _ _ (Base64.decode_encode _) hparse hlength (by decide)

end Simple

end TokenMetadata
