import Mathlib
import TokenMetadata.Proofs.Signing.Schnorr

/-!
# Every scalar signs

A scalar and its nonce each have a point whose `y` may be even or odd. A signature is made with the
multiples whose `y` is even, so the key lifts to the point that was signed with and verification
comes back to the point of the nonce, in all four cases. Only a nonce of zero keeps a scalar from
signing.
-/

namespace TokenMetadata.Schnorr

open Curve Taproot

/-- The nonce that a secret derives for a message and auxiliary bytes. -/
def derivedNonce (d : Nat) (m aux : Bytes) : Nat :=
  nonce (evenSecret d (Point.ofScalar d)) (xBytes (Point.ofScalar d)) m aux

/-- How signing ends: with a signature that verifies with the key of the secret, or at the first of
its two checks that does not hold. -/
structure SignsWhenItCan (m : Bytes) (secret : Int) (aux : Bytes) : Prop where
  verifies : ∀ sig, sign m secret aux = .ok sig →
    sig.length = 64 ∧ Bytes.toNatBE (sig.drop 32) < groupOrder ∧
      ∃ x y, Point.ofScalar secret.toNat = .affine x y ∧
        verify m (Bytes.ofNatBE 32 x.val) sig = true
  returns : 1 ≤ secret ∧ secret < groupOrder → derivedNonce secret.toNat m aux ≠ 0 →
    ∃ sig, sign m secret aux = .ok sig
  noNonce : 1 ≤ secret ∧ secret < groupOrder → derivedNonce secret.toNat m aux = 0 →
    sign m secret aux = .error .nonceZero
  outside : ¬ (1 ≤ secret ∧ secret < groupOrder) → sign m secret aux = .error .secretOutOfRange

variable {m aux sig : Bytes} {secret : Int}

theorem range_of_sign (h : sign m secret aux = .ok sig) : 1 ≤ secret ∧ secret < groupOrder := by
  by_contra hout
  rw [sign_of_outside hout] at h
  cases h

theorem exists_sign {d : Nat} (hpos : 0 < d) (hlt : d < groupOrder)
    (hnonce : derivedNonce d m aux ≠ 0) : ∃ sig, sign m d aux = .ok sig := by
  refine ⟨signature d (derivedNonce d m aux) m, ?_⟩
  apply sign_eq_ok_iff.mpr
  exact ⟨d, rfl, hpos, hlt, _, rfl, Nat.pos_of_ne_zero hnonce, rfl⟩

/-- Signing succeeds for scalars whose nonce is not zero and for nothing else, and what it gives
verifies, whatever the length of the message and of the auxiliary bytes. -/
theorem scalars_sign (m : Bytes) (secret : Int) (aux : Bytes) : SignsWhenItCan m secret aux where
  verifies := by
    intro sig h
    have hverify := verify_of_sign h
    obtain ⟨hlength, -, hnumber, -⟩ := verify_eq_true_iff.mp hverify
    have hrange := range_of_sign h
    obtain ⟨x, y, hpoint, -⟩ := exists_ofScalar (k := secret.toNat) (by omega) (by omega)
    rw [hpoint] at hverify
    exact ⟨hlength, hnumber, x, y, hpoint, hverify⟩
  returns := by
    intro hrange hnonce
    obtain ⟨d, rfl⟩ := Int.eq_ofNat_of_zero_le (by omega : 0 ≤ secret)
    rw [Int.toNat_natCast] at hnonce
    exact exists_sign (by omega) (by omega) hnonce
  noNonce := by
    intro hrange hnonce
    obtain ⟨d, rfl⟩ := Int.eq_ofNat_of_zero_le (by omega : 0 ≤ secret)
    rw [Int.toNat_natCast] at hnonce
    exact sign_of_nonce_zero (by omega) (by omega) hnonce
  outside := sign_of_outside

theorem scalars_sign_greatest :
    derivedNonce (groupOrder - 1) [1] [] ≠ 0 ∧
      ∃ sig, sign [1] (groupOrder - 1 : Nat) [] = .ok sig ∧ sig.length = 64 ∧
        Bytes.toNatBE (sig.drop 32) < groupOrder ∧
        verify [1] (Bytes.ofNatBE 32 generatorX.val) sig = true := by
  -- the point of the greatest scalar is the negative of the generator, and its `y` is odd
  have hpoint : Point.ofScalar (groupOrder - 1) = .affine generatorX (-generatorY) :=
    ofScalar_sub (by decide) ofScalar_one
  have hnonce : derivedNonce (groupOrder - 1) [1] [] ≠ 0 := by
    rw [derivedNonce, hpoint]
    decide +kernel
  have hsigns := scalars_sign [1] (groupOrder - 1 : Nat) []
  obtain ⟨sig, hsig⟩ := hsigns.returns (by decide) hnonce
  obtain ⟨hlength, hnumber, x, y, hxy, hverify⟩ := hsigns.verifies sig hsig
  rw [Int.toNat_natCast, hpoint] at hxy
  obtain ⟨rfl, -⟩ := Point.affine.inj hxy
  exact ⟨hnonce, sig, hsig, hlength, hnumber, hverify⟩

end TokenMetadata.Schnorr
