import Mathlib
import TokenMetadata.Proofs.Signing.Control

/-!
# Networks do not separate signatures

A network is seen in the text of an address and nowhere behind it: the key that the text stands for
is what is hashed. Signing for the own address therefore comes to the same on every network, and
what is signed on one of them is a signature on the others.
-/

namespace TokenMetadata

open Curve Taproot

namespace Network

theorem hrp_injective : Function.Injective hrp := by
  intro n₁ n₂ h
  cases n₁ <;> cases n₂ <;> first | rfl | exact absurd h (by decide)

end Network

namespace Taproot

variable {key x : Bytes}

/-- The text of a key on any network is read as the key. -/
theorem keyOfAddress_encode (n : Network) (hlength : key.length = 32) :
    keyOfAddress (Bech32.encode n.hrp 1 key) = .ok key := by
  obtain ⟨hascii, hlower⟩ := n.hrp_lower
  obtain ⟨hwritten, -⟩ := Bech32.encode_lower key (by decide : 1 < 32) hascii hlower
  exact (keyOfAddress_eq_ok_iff hwritten).mpr ⟨hlength, n, Or.inl rfl⟩

/-- The texts of a key on two networks differ in front of the separator. -/
theorem encode_hrp_ne {n₁ n₂ : Network} (h : n₁ ≠ n₂) (key : Bytes) :
    Bech32.encode n₁.hrp 1 key ≠ Bech32.encode n₂.hrp 1 key := fun hsame =>
  h (Network.hrp_injective (Bech32.prefix_eq_of_encode_eq (by decide) hsame))

/-- A key that cannot be tweaked is off the curve, or one of two guards on hashes holds it up. -/
theorem outputKey_eq_error {f : SigningFault} (h : outputKey x = .error f) :
    lift x = .error f ∨ f ∈ [.tweakOutOfRange, .tweakedAtInfinity] := by
  rcases bind_eq_error_iff.mp h with hlift | ⟨p, -, hguard⟩
  · exact Or.inl hlift
  · right
    dsimp only at hguard
    split at hguard
    · obtain rfl := Except.error.inj hguard
      simp
    split at hguard
    · obtain rfl := Except.error.inj hguard
      simp
    · cases hguard

end Taproot

namespace Simple

/-- Verification reads the address for its key alone. -/
theorem verify_congr {a₁ a₂ : String} (h : keyOfAddress a₁ = keyOfAddress a₂) (m : Bytes)
    (text : String) : verify a₁ m text = verify a₂ m text := by
  rw [verify, verify, h]

/-- What is taken out of the stack is what was put into it. -/
theorem extract_witness (t : Nat) (key m : Bytes) :
    (witness t key m .all >>= Witness.extractSignature) =
      Schnorr.sign (signedHash key m .all) t := by
  have hwitness : witness t key m .all =
      (fun sig => Witness.serialize [sig ++ [1]]) <$> Schnorr.sign (signedHash key m .all) t := rfl
  rw [hwitness]
  cases hsign : Schnorr.sign (signedHash key m .all) t with
  | error f => rfl
  | ok sig =>
    obtain ⟨d, -, -, -, k, -, -, hsig⟩ := Schnorr.sign_eq_ok_iff.mp hsign
    have hlength : sig.length = 64 := by rw [hsig, Schnorr.length_signature]
    exact Witness.extractSignature_marked hlength

end Simple

namespace PrivateKey

variable {key : Datum} {k : Bytes}

theorem bytes_eq_ok_iff : bytes key = .ok k ↔ IsForm k key := by
  constructor
  · intro h
    cases key with
    | text s =>
      rw [bytes] at h
      split at h
      · rename_i hdecode
        obtain rfl := Except.ok.inj h
        exact .text (Hex.decode_eq_some_iff.mp hdecode)
      · cases h
    | bytes b =>
      obtain rfl := Except.ok.inj h
      exact .bytes
    | _ => cases h
  · exact bytes_form

/-- The number of a key is that of its thirty-two bytes. -/
theorem scalar_eq_ok_iff {d : Nat} :
    scalar key = .ok d ↔
      ∃ k, IsForm k key ∧ k.length = 32 ∧ Bytes.toNatBE k = d ∧ 0 < d ∧ d < groupOrder := by
  rw [scalar, secret]
  simp only [bind_eq_ok_iff, bytes_eq_ok_iff, refuse_eq_ok_iff, return_eq_ok_iff, not_not]
  constructor
  · rintro ⟨k, ⟨_, hform, hlength, rfl⟩, hscalar⟩
    split at hscalar
    · rename_i hfound
      obtain rfl := return_eq_ok_iff.mp hscalar
      exact ⟨_, hform, Simple.scalar?_eq_some_iff.mp hfound⟩
    · cases hscalar
  · rintro ⟨k, hform, hlength, hscalar⟩
    refine ⟨k, ⟨k, hform, hlength, rfl⟩, ?_⟩
    rw [Simple.scalar?_eq_some_iff.mpr ⟨hlength, hscalar⟩]
    rfl

/-- Signing for the own address without the address: the hash is made from the tweaked key. -/
def signTweaked (key : Datum) (m : Bytes) : Except Fault Bytes := do
  let d ← scalar key
  let k ← outputKey (xBytes (Point.ofScalar d))
  let (tweaked, _) ← tweakSecret d
  Schnorr.sign (Simple.signedHash k m .all) tweaked

/-- The way through the address, its text and the witness stack changes nothing. -/
theorem signOn_eq_signTweaked (key : Datum) (m : Bytes) (n : Network) :
    signOn key m n = signTweaked key m := by
  rw [signOn, signTweaked]
  cases hscalar : scalar key with
  | error f => rfl
  | ok d =>
    obtain ⟨-, -, -, -, hpos, hlt⟩ := scalar_eq_ok_iff.mp hscalar
    simp only [liftSigning_ok, ok_bind]
    cases hkey : outputKey (xBytes (Point.ofScalar d)) with
    | error f =>
      rw [addressOn, hkey]
      rfl
    | ok k =>
      -- the address opens for the secret that it was made from
      have hown : addressOn (xBytes (Point.ofScalar d)) n = .ok (Bech32.encode n.hrp 1 k) :=
        addressOn_eq_ok_iff.mpr ⟨k, hkey, rfl⟩
      obtain ⟨t, htweak⟩ := (outputKey_ofScalar_iff hpos hlt).mp hkey
      have hunlock : Simple.unlock d (Bech32.encode n.hrp 1 k) = .ok (t, k) :=
        Simple.unlock_eq_ok_iff.mpr ⟨by omega, by omega,
          keyOfAddress_encode n (length_of_outputKey hkey), htweak⟩
      rw [hown, htweak]
      simp only [liftSigning_ok, ok_bind, Simple.signWitness, hunlock]
      rw [liftSigning_bind, Simple.extract_witness]

/-- How signing on a network ends: with a whole signature, with a fault of signing, or, if the
message is no message, with what is wrong with it. -/
theorem sign_outcome (memory : Nat) (key message : Datum) (n : Network) :
    (∃ sig, sign memory key message (.text n.name) = .ok sig ∧ sig.length = 64) ∨
      (∃ f, sign memory key message (.text n.name) = .error (.signing f)) ∨
      ∃ e, messageBytes memory message = .error e ∧
        sign memory key message (.text n.name) = .error (.misuse e) := by
  cases hm : messageBytes memory message with
  | error e =>
    refine Or.inr (Or.inr ⟨e, rfl, ?_⟩)
    rw [sign, Network.accept_name, hm]
    rfl
  | ok m =>
    rw [sign_of_messageBytes hm]
    cases hrun : signOn key m n with
    | ok sig => exact Or.inl ⟨sig, rfl, length_of_signOn hrun⟩
    | error e =>
      obtain ⟨f, rfl⟩ := signOn_eq_error hrun
      exact Or.inr (Or.inl ⟨f, rfl⟩)

end PrivateKey

/-- On any two networks a private key signs alike, with a whole signature or the same fault, and the
addresses of a public key have the same signatures, though they are never the same text. A public
key without an address on one of them has none on the other. -/
theorem networks_share_signatures (memory : Nat) (n₁ n₂ : Network) :
    (∀ key message : Datum,
      PrivateKey.sign memory key message (.text n₁.name) =
        PrivateKey.sign memory key message (.text n₂.name) ∧
      ((∃ sig, PrivateKey.sign memory key message (.text n₁.name) = .ok sig ∧ sig.length = 64) ∨
        (∃ f, PrivateKey.sign memory key message (.text n₁.name) = .error (.signing f)) ∨
        ∃ e, PrivateKey.messageBytes memory message = .error e ∧
          PrivateKey.sign memory key message (.text n₁.name) = .error (.misuse e))) ∧
    ∀ x : Bytes,
      (∃ f, (lift x = .error f ∨ f ∈ [.tweakOutOfRange, .tweakedAtInfinity]) ∧
        PrivateKey.deriveAddress x (.text n₁.name) = .error f ∧
          PrivateKey.deriveAddress x (.text n₂.name) = .error f) ∨
      ∃ a₁ a₂, PrivateKey.deriveAddress x (.text n₁.name) = .ok a₁ ∧
        PrivateKey.deriveAddress x (.text n₂.name) = .ok a₂ ∧ (n₁ ≠ n₂ → a₁ ≠ a₂) ∧
          ∀ (m : Bytes) (text : String), Simple.verify a₁ m text = Simple.verify a₂ m text := by
  constructor
  · refine fun key message => ⟨?_, PrivateKey.sign_outcome memory key message n₁⟩
    simp only [PrivateKey.sign, Network.accept_name, liftSigning_ok, ok_bind,
      PrivateKey.signOn_eq_signTweaked]
  · intro x
    simp only [PrivateKey.deriveAddress, Network.accept_name, ok_bind]
    cases hkey : outputKey x with
    | error f =>
      refine Or.inl ⟨f, outputKey_eq_error hkey, ?_, ?_⟩
      all_goals rw [PrivateKey.addressOn, hkey, error_bind]
    | ok key =>
      have hread : ∀ n : Network, keyOfAddress (Bech32.encode n.hrp 1 key) = .ok key := fun n =>
        keyOfAddress_encode n (length_of_outputKey hkey)
      refine Or.inr ⟨_, _, PrivateKey.addressOn_eq_ok_iff.mpr ⟨key, hkey, rfl⟩,
        PrivateKey.addressOn_eq_ok_iff.mpr ⟨key, hkey, rfl⟩, fun hne => encode_hrp_ne hne key, ?_⟩
      exact Simple.verify_congr ((hread n₁).trans (hread n₂).symm)

/-- The least scalar signs on the network for tests, so it signs alike on the main one. -/
theorem networks_share_signatures_least_scalar :
    ∃ sig, sig.length = 64 ∧
      PrivateKey.sign Bytes.maxSize (.bytes (Bytes.ofNatBE 32 1)) (.text "arch")
        (.text "regtest") = .ok sig ∧
      PrivateKey.sign Bytes.maxSize (.bytes (Bytes.ofNatBE 32 1)) (.text "arch")
        (.text "mainnet") = .ok sig := by
  obtain ⟨sig, hlength, hsign⟩ := sign_one Bytes.maxSize (.text "arch") rfl (by simp [samples])
  obtain ⟨hsame, -⟩ := (networks_share_signatures Bytes.maxSize .mainnet .regtest).1
    (.bytes (Bytes.ofNatBE 32 1)) (.text "arch")
  exact ⟨sig, hlength, hsign, hsame.trans hsign⟩

end TokenMetadata
