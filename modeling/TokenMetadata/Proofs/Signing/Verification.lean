import Mathlib
import TokenMetadata.Signing.PrivateKey
import TokenMetadata.Proofs.Signing.Schnorr
import TokenMetadata.Proofs.Signing.Extraction
import TokenMetadata.Proofs.Text.Base64

/-!
# Signed messages verify

Signing and verification read the same key from the address and hash the same transaction, and the
stack that is written is read back with its hash type.
-/

namespace TokenMetadata

open Curve Taproot

namespace Simple

/-- The hash that is signed for the key of an address. -/
def signedHash (outputKey m : Bytes) (hashType : Message.HashType) : Bytes :=
  Message.sighash (script outputKey) (Message.toSpendId (script outputKey) m) hashType

/-- The item of a stack: the signature, and the hash type behind it unless it is the default. -/
def markedItem (hashType : Message.HashType) (sig : Bytes) : Bytes :=
  match hashType with
  | .default => sig
  | .all => sig ++ [1]

variable {address : String} {m sig : Bytes} {hashType : Message.HashType}

theorem signatureOf?_markedItem (h : sig.length = 64) :
    signatureOf? [markedItem hashType sig] = some (sig, hashType) := by
  cases hashType with
  | default => simp [signatureOf?, markedItem, h]
  | all => simp [signatureOf?, markedItem, h, List.take_left' h]

theorem length_markedItem_lt (h : sig.length = 64) :
    (markedItem hashType sig).length < 2 ^ 64 := by
  cases hashType with
  | default => simp [markedItem, h]
  | all => simp [markedItem, h]

/-- An address opens for the secret whose tweaked key it stands for. -/
theorem unlock_eq_ok_iff {secret : Int} {t : Nat} {key : Bytes} :
    unlock secret address = .ok (t, key) ↔ 0 < secret ∧ secret < groupOrder ∧
      keyOfAddress address = .ok key ∧ tweakSecret secret = .ok (t, key) := by
  simp only [unlock, refuse_eq_ok_iff, bind_eq_ok_iff, return_eq_ok_iff, liftSigning_eq_ok_iff,
    Prod.exists, Prod.mk.injEq, not_or, not_le, ne_eq, not_not, and_assoc]
  constructor
  · rintro ⟨hpos, hlt, key', hkey, t', own, hown, hsame, ht, hk⟩
    subst hk ht hsame
    exact ⟨hpos, hlt, hkey, hown⟩
  · rintro ⟨hpos, hlt, hkey, hown⟩
    exact ⟨hpos, hlt, key, hkey, t, key, hown, rfl, rfl, rfl⟩

theorem witness_eq_ok_iff {t : Nat} {key stack : Bytes} :
    witness t key m hashType = .ok stack ↔
      ∃ sig, Schnorr.sign (signedHash key m hashType) t = .ok sig ∧
        Witness.serialize [markedItem hashType sig] = stack := by
  cases hashType with
  | default => simp only [witness, bind_eq_ok_iff, return_eq_ok_iff, signedHash, markedItem]
  | all => simp only [witness, bind_eq_ok_iff, return_eq_ok_iff, signedHash, markedItem]

theorem verify_eq_true_iff {signature : String} :
    verify address m signature = true ↔ ∃ stack items key sig hashType,
      Base64.decode signature = .ok stack ∧ Witness.parse stack = .ok items ∧
        keyOfAddress address = .ok key ∧ signatureOf? items = some (sig, hashType) ∧
          Schnorr.verify (signedHash key m hashType) key sig = true := by
  unfold verify
  cases hdecode : Base64.decode signature with
  | error e => simp
  | ok stack =>
    cases hparse : Witness.parse stack with
    | error e => simp [hparse]
    | ok items =>
      cases hkey : keyOfAddress address with
      | error e => simp
      | ok key =>
        cases hsig : signatureOf? items with
        | none => simp [hparse, hsig]
        | some found =>
          obtain ⟨sig, hashType⟩ := found
          simp [hparse, hsig, signedHash]

/-- The stack that an opened address gives verifies for the address. -/
theorem verify_of_witness {secret : Int} {t : Nat} {key stack : Bytes}
    (hunlock : unlock secret address = .ok (t, key)) (h : witness t key m hashType = .ok stack) :
    ∃ sig, sig.length = 64 ∧ stack = Witness.serialize [markedItem hashType sig] ∧
      verify address m (Base64.encode stack) = true := by
  obtain ⟨-, -, hkey, htweak⟩ := unlock_eq_ok_iff.mp hunlock
  obtain ⟨sig, hsign, rfl⟩ := witness_eq_ok_iff.mp h
  obtain ⟨-, -, hown⟩ := tweakSecret_ok htweak
  have hverify := Schnorr.verify_of_sign hsign
  rw [Int.toNat_natCast, ← hown] at hverify
  have hlength := (Schnorr.verify_eq_true_iff.mp hverify).1
  exact ⟨sig, hlength, rfl, verify_eq_true_iff.mpr ⟨_, _, key, sig, hashType,
    Base64.decode_encode _, Witness.parse_serialize_one (length_markedItem_lt hlength), hkey,
    signatureOf?_markedItem hlength, hverify⟩⟩

theorem signWithSecret_eq_ok_iff {secret : Int} {hashType : Datum} {w : String} :
    signWithSecret secret address m hashType = .ok w ↔ ∃ t key type stack,
      unlock secret address = .ok (t, key) ∧ Message.HashType.accept hashType = .ok type ∧
        witness t key m type = .ok stack ∧ Base64.encode stack = w := by
  simp only [signWithSecret, bind_eq_ok_iff, return_eq_ok_iff, liftSigning_eq_ok_iff, Prod.exists,
    exists_and_left]

theorem signWitness_eq_ok_iff {secret : Int} {stack : Bytes} :
    signWitness secret address m hashType = .ok stack ↔ ∃ t key,
      unlock secret address = .ok (t, key) ∧ witness t key m hashType = .ok stack := by
  simp only [signWitness, bind_eq_ok_iff, liftSigning_eq_ok_iff, Prod.exists]

end Simple

namespace PrivateKey

theorem sign_eq_ok_iff {memory : Nat} {key message network : Datum} {sig : Bytes} :
    sign memory key message network = .ok sig ↔ ∃ n m, Network.accept network = .ok n ∧
      messageBytes memory message = .ok m ∧ signOn key m n = .ok sig := by
  simp only [sign, bind_eq_ok_iff, liftSigning_eq_ok_iff, liftMisuse_eq_ok_iff, exists_and_left]

theorem signOn_eq_ok_iff {key : Datum} {m sig : Bytes} {n : Network} :
    signOn key m n = .ok sig ↔ ∃ (d : Nat) (address : String) (stack : Bytes), scalar key = .ok d ∧
      addressOn (xBytes (Point.ofScalar d)) n = .ok address ∧
        Simple.signWitness d address m .all = .ok stack ∧
          Witness.extractSignature stack = .ok sig := by
  simp only [signOn, bind_eq_ok_iff, liftSigning_eq_ok_iff, exists_and_left]

end PrivateKey

/-- The least scalar after its tweak, and the point of it. -/
def tweakedOne : Nat := 0x3cf5216d476a5e637bf0da674e50ddf55c403270dd36494dfcca438132fa30e8

def tweakedOnePoint : Point :=
  .affine 0xda4710964f7852695de2da025290e24af6d8c281de5a0b902b7135fd9fd74d21
    0x0bac6d43a8a357078d5d1b8a0728d3d4e3afa0e99f997023a119ec00de50f065

/-- The address of the least scalar on the network for tests. -/
def addressOfOne : String := "bcrt1pmfr3p9j00pfxjh0zmgp99y8zftmd3s5pmedqhyptwy6lm87hf5ssm803es"

theorem ofScalar_tweakedOne : Point.ofScalar tweakedOne = tweakedOnePoint :=
  ofScalar_of_climb (by decide) (by decide +kernel)

theorem tweakSecret_one : tweakSecret 1 = .ok (tweakedOne, xBytes tweakedOnePoint) := by
  have htweak : tweak (xBytes .generator) = tweakedOne - 1 := by decide +kernel
  refine tweakSecret_eq_ok_iff.mpr
    ⟨1, .generator, by decide, ofScalar_one, by decide, ?_, ?_, by decide, ?_⟩
  · rw [htweak]
    decide
  · rw [htweak]
    decide
  · rw [ofScalar_tweakedOne]

/-- Messages of no byte, of one and of four, and the hash types that they are signed with. -/
def samples : List (Bytes × Message.HashType) :=
  [([], .all), ([1], .default), ([1], .all), (Bytes.ofText "arch", .default),
    (Bytes.ofText "arch", .all)]

theorem nonce_one_pos : ∀ sample ∈ samples,
    0 < Schnorr.nonce (evenSecret tweakedOne tweakedOnePoint) (xBytes tweakedOnePoint)
      (Simple.signedHash (xBytes tweakedOnePoint) sample.1 sample.2) (List.replicate 32 0) := by
  decide +kernel

/-- The least scalar opens its address and signs the sample messages. -/
theorem witness_one : ∃ t key, Simple.unlock 1 addressOfOne = .ok (t, key) ∧
    ∀ m hashType, (m, hashType) ∈ samples → ∃ sig, sig.length = 64 ∧
      Simple.witness t key m hashType =
        .ok (Witness.serialize [Simple.markedItem hashType sig]) := by
  have hkey : keyOfAddress addressOfOne = .ok (xBytes tweakedOnePoint) := by decide +kernel
  have hunlock := Simple.unlock_eq_ok_iff.mpr ⟨by decide, by decide, hkey, tweakSecret_one⟩
  refine ⟨_, _, hunlock, fun m hashType hsample => ?_⟩
  have hnonce := nonce_one_pos _ hsample
  rw [← ofScalar_tweakedOne] at hnonce ⊢
  have hsign := Schnorr.sign_eq_ok_iff.mpr
    ⟨tweakedOne, rfl, by decide, by decide, _, rfl, hnonce, rfl⟩
  exact ⟨_, Schnorr.length_signature _ _ _, Simple.witness_eq_ok_iff.mpr ⟨_, hsign, rfl⟩⟩

/-- The least scalar signs for its own address. -/
theorem signOn_one {m : Bytes} (hsample : (m, .all) ∈ samples) :
    ∃ sig, sig.length = 64 ∧
      PrivateKey.signOn (.bytes (Bytes.ofNatBE 32 1)) m .regtest = .ok sig := by
  obtain ⟨t, key, hunlock, hwitness⟩ := witness_one
  obtain ⟨sig, hlength, hstack⟩ := hwitness m .all hsample
  have hscalar : PrivateKey.scalar (.bytes (Bytes.ofNatBE 32 1)) = .ok 1 := by decide
  have haddress : PrivateKey.addressOn (xBytes (Point.ofScalar 1)) .regtest = .ok addressOfOne := by
    have hkey := outputKey_of_tweakSecret (by decide) (by decide) tweakSecret_one
    have htext : address (xBytes tweakedOnePoint) "bcrt" = .ok addressOfOne := by decide +kernel
    exact bind_eq_ok_iff.mpr ⟨_, hkey, htext⟩
  refine ⟨sig, hlength, PrivateKey.signOn_eq_ok_iff.mpr ⟨1, addressOfOne, _, hscalar, haddress,
    Simple.signWitness_eq_ok_iff.mpr ⟨t, key, hunlock, hstack⟩, ?_⟩⟩
  exact Witness.extractSignature_marked hlength

theorem sign_one (memory : Nat) (message : Datum) {m : Bytes}
    (hm : PrivateKey.messageBytes memory message = .ok m) (hsample : (m, .all) ∈ samples) :
    ∃ sig, sig.length = 64 ∧
      PrivateKey.sign memory (.bytes (Bytes.ofNatBE 32 1)) message (.text "regtest") = .ok sig := by
  obtain ⟨sig, hlength, hsignOn⟩ := signOn_one hsample
  exact ⟨sig, hlength, PrivateKey.sign_eq_ok_iff.mpr ⟨.regtest, m, by decide, hm, hsignOn⟩⟩

theorem signWithSecret_one {m : Bytes} (hsample : (m, .default) ∈ samples) :
    ∃ w, Simple.signWithSecret 1 addressOfOne m (.int 0) = .ok w := by
  obtain ⟨t, key, hunlock, hwitness⟩ := witness_one
  obtain ⟨sig, -, hstack⟩ := hwitness m .default hsample
  exact ⟨_, Simple.signWithSecret_eq_ok_iff.mpr
    ⟨t, key, .default, _, hunlock, by decide, hstack, rfl⟩⟩

/-- Whatever is signed verifies: a private key's signature, put in a stack with its hash type behind
it, for the address of the key on the network, and the text that a secret signs with either hash
type for the address that was given. -/
theorem signature_verifies (memory : Nat) :
    (∀ (key message network : Datum) (sig : Bytes),
      PrivateKey.sign memory key message network = .ok sig →
        sig.length = 64 ∧ ∃ x address m, PrivateKey.xOnly key = .ok x ∧
          PrivateKey.deriveAddress x network = .ok address ∧
          PrivateKey.messageBytes memory message = .ok m ∧
          Simple.verify address m (Base64.encode (Witness.serialize [sig ++ [1]])) = true) ∧
    ∀ (secret : Int) (address : String) (m : Bytes) (hashType : Datum) (w : String),
      Simple.signWithSecret secret address m hashType = .ok w →
        Simple.verify address m w = true := by
  constructor
  · intro key message network sig h
    obtain ⟨n, m, hnetwork, hmessage, hsign⟩ := PrivateKey.sign_eq_ok_iff.mp h
    obtain ⟨d, address, stack, hscalar, haddress, hwitness, hextract⟩ :=
      PrivateKey.signOn_eq_ok_iff.mp hsign
    obtain ⟨t, outputKey, hunlock, hstack⟩ := Simple.signWitness_eq_ok_iff.mp hwitness
    obtain ⟨item, hlength, hserial, hverify⟩ := Simple.verify_of_witness hunlock hstack
    -- The stack is marked with its hash type, so the item is what was taken out of it.
    rw [hserial] at hextract hverify
    obtain rfl : item = sig := by
      rw [Simple.markedItem, Witness.extractSignature_marked hlength] at hextract
      exact Except.ok.inj hextract
    refine ⟨hlength, _, address, m, map_eq_ok_iff.mpr ⟨d, hscalar, rfl⟩, ?_, hmessage, hverify⟩
    exact bind_eq_ok_iff.mpr ⟨n, hnetwork, haddress⟩
  · intro secret address m hashType w h
    obtain ⟨t, key, type, stack, hunlock, -, hstack, rfl⟩ :=
      Simple.signWithSecret_eq_ok_iff.mp h
    obtain ⟨-, -, -, hverify⟩ := Simple.verify_of_witness hunlock hstack
    exact hverify

theorem signature_verifies_least_scalar :
    (∃ sig, PrivateKey.sign Bytes.maxSize (.bytes (Bytes.ofNatBE 32 1)) (.bytes [1])
        (.text "regtest") = .ok sig ∧
      sig.length = 64 ∧ ∃ address,
        Simple.verify address [1] (Base64.encode (Witness.serialize [sig ++ [1]])) = true) ∧
    ∃ w, Simple.signWithSecret 1 addressOfOne [1] (.int 0) = .ok w ∧
      Simple.verify addressOfOne [1] w = true := by
  constructor
  · obtain ⟨sig, -, hsign⟩ := sign_one Bytes.maxSize (.bytes [1]) rfl (by decide)
    obtain ⟨hlength, x, address, m, -, -, hm, hverify⟩ :=
      (signature_verifies Bytes.maxSize).1 _ _ _ _ hsign
    obtain rfl : [1] = m := Except.ok.inj hm
    exact ⟨sig, hsign, hlength, address, hverify⟩
  · obtain ⟨w, hsign⟩ := signWithSecret_one (m := [1]) (by decide)
    exact ⟨w, hsign, (signature_verifies Bytes.maxSize).2 _ _ _ _ _ hsign⟩

end TokenMetadata
