import Mathlib
import TokenMetadata.Signing.Schnorr
import TokenMetadata.Proofs.Curve.Count
import TokenMetadata.Proofs.Signing.Taproot

/-!
# Signatures verify

The number of a signature is the nonce plus the challenge times the secret. Taking the challenge
times the key from its multiple of the generator leaves the point of the nonce, and both secret and
nonce have been given the sign that makes `y` even.
-/

namespace TokenMetadata.Schnorr

open Curve Taproot

theorem verify_eq_true_iff {m pubkey sig : Bytes} :
    verify m pubkey sig = true ↔ sig.length = 64 ∧
      Bytes.toNatBE (sig.take 32) < fieldPrime ∧ Bytes.toNatBE (sig.drop 32) < groupOrder ∧
      ∃ p x y, lift pubkey = .ok p ∧
        (Point.ofScalar (Bytes.toNatBE (sig.drop 32))).add
          (Point.multiple (groupOrder - challenge (sig.take 32) pubkey m) p) = .affine x y ∧
        isOdd y = false ∧ x.val = Bytes.toNatBE (sig.take 32) := by
  unfold verify
  by_cases hlength : sig.length = 64
  · rw [if_neg (not_not.mpr hlength)]
    cases hlift : lift pubkey with
    | error e => simp
    | ok p =>
      by_cases hrange : fieldPrime ≤ Bytes.toNatBE (sig.take 32) ∨
          groupOrder ≤ Bytes.toNatBE (sig.drop 32)
      · simp only [if_pos hrange, Bool.false_eq_true, false_iff]
        omega
      · simp only [if_neg hrange]
        obtain ⟨hr, hs⟩ := not_or.mp hrange
        cases hsum : (Point.ofScalar (Bytes.toNatBE (sig.drop 32))).add
            (Point.multiple (groupOrder - challenge (sig.take 32) pubkey m) p) with
        | infinity => simp [hsum]
        | affine x y => simp [hsum, isOdd, hlength, not_le.mp hr, not_le.mp hs]
  · simp [hlength]

/-- The bytes of a signature by the secret `d` with the nonce `k`. -/
def signature (d k : Nat) (m : Bytes) : Bytes :=
  xBytes (Point.ofScalar k) ++ Bytes.ofNatBE 32 ((evenSecret k (Point.ofScalar k) +
    challenge (xBytes (Point.ofScalar k)) (xBytes (Point.ofScalar d)) m *
      evenSecret d (Point.ofScalar d)) % groupOrder)

theorem nonce_lt (d : Nat) (pubkey m aux : Bytes) : nonce d pubkey m aux < groupOrder :=
  Nat.mod_lt _ (by decide)

theorem challenge_lt (r pubkey m : Bytes) : challenge r pubkey m < groupOrder :=
  Nat.mod_lt _ (by decide)

/-- Signing gives a signature when both the secret and its nonce are scalars. -/
theorem sign_eq_ok_iff {m aux sig : Bytes} {secret : Int} :
    sign m secret aux = .ok sig ↔ ∃ d : Nat, secret = d ∧ 0 < d ∧ d < groupOrder ∧
      ∃ k, nonce (evenSecret d (Point.ofScalar d)) (xBytes (Point.ofScalar d)) m aux = k ∧ 0 < k ∧
        sig = signature d k m := by
  simp only [sign, refuse_eq_ok_iff, return_eq_ok_iff]
  constructor
  · rintro ⟨hrange, hk, rfl⟩
    exact ⟨secret.toNat, by omega, by omega, by omega, _, rfl, Nat.pos_of_ne_zero hk, rfl⟩
  · rintro ⟨d, rfl, hpos, hlt, k, rfl, hk, hsig⟩
    exact ⟨by omega, hk.ne', hsig.symm⟩

theorem sign_of_outside {m aux : Bytes} {secret : Int}
    (h : ¬ (1 ≤ secret ∧ secret < groupOrder)) : sign m secret aux = .error .secretOutOfRange := by
  have hout : secret < 1 ∨ groupOrder ≤ secret := by omega
  rw [sign, if_pos hout]
  rfl

theorem sign_of_nonce_zero {m aux : Bytes} {d : Nat} (hpos : 0 < d) (hlt : d < groupOrder)
    (h : nonce (evenSecret d (Point.ofScalar d)) (xBytes (Point.ofScalar d)) m aux = 0) :
    sign m d aux = .error .nonceZero := by
  have hin : ¬ ((d : Int) < 1 ∨ (groupOrder : Int) ≤ d) := by omega
  rw [sign, if_neg hin]
  simp only [Int.toNat_natCast, if_pos h]
  rfl

@[simp] theorem length_signature (d k : Nat) (m : Bytes) : (signature d k m).length = 64 := by
  simp [signature]

/-- What verification adds up is the difference of the two multiples. -/
theorem sum_eq_toPoint {e : Nat} (he : e ≤ groupOrder) (s : Nat) (P : curve.Point) :
    (Point.ofScalar s).add (Point.multiple (groupOrder - e) (toPoint P)) =
      toPoint (s • base - e • P) := by
  rw [ofScalar_eq, multiple_toPoint, ← toPoint_add, sub_nsmul_eq he, ← sub_eq_add_neg]

theorem nonce_point_eq {k d e : Nat} (h : e ≤ groupOrder) :
    (Point.ofScalar ((k + e * d) % groupOrder)).add
      (Point.multiple (groupOrder - e) (Point.ofScalar d)) = Point.ofScalar k := by
  rw [ofScalar_eq d, sum_eq_toPoint h, mod_nsmul_base, add_nsmul, mul_nsmul', add_sub_cancel_right,
    ← ofScalar_eq]

theorem verify_signature {d k : Nat} {m : Bytes} (hd : 0 < d) (hdlt : d < groupOrder)
    (hk : 0 < k) (hklt : k < groupOrder) :
    verify m (xBytes (Point.ofScalar d)) (signature d k m) = true := by
  obtain ⟨x, y, hpoint, -, heven, hbytes⟩ := ofScalar_evenSecret hk hklt
  have htake : (signature d k m).take 32 = xBytes (Point.ofScalar k) :=
    List.take_left' (length_xBytes _)
  have hdrop : Bytes.toNatBE ((signature d k m).drop 32) = (evenSecret k (Point.ofScalar k) +
      challenge (xBytes (Point.ofScalar k)) (xBytes (Point.ofScalar d)) m *
        evenSecret d (Point.ofScalar d)) % groupOrder := by
    rw [signature, List.drop_left' (length_xBytes _), Bytes.toNatBE_ofNatBE]
    exact Nat.mod_eq_of_lt ((Nat.mod_lt _ (by decide)).trans (by decide))
  have hx : Bytes.toNatBE (xBytes (Point.ofScalar k)) = x.val := by
    rw [← hbytes, toNatBE_xBytes]
  -- The sum is the nonce's point with even `y`, whatever the parity of the two points was.
  have hsum := nonce_point_eq (k := evenSecret k (Point.ofScalar k))
    (d := evenSecret d (Point.ofScalar d))
    (challenge_lt (xBytes (Point.ofScalar k)) (xBytes (Point.ofScalar d)) m).le
  rw [hpoint] at hsum
  refine verify_eq_true_iff.mpr ⟨length_signature d k m, ?_, ?_, _, x, y,
    lift_xBytes_ofScalar hd hdlt, ?_, heven, ?_⟩
  · rw [htake, hx]
    exact x.isLt
  · rw [hdrop]
    exact Nat.mod_lt _ (by decide)
  · rw [hdrop, htake]
    exact hsum
  · rw [htake, hx]

/-- What is signed with a secret verifies with the key of the secret. -/
theorem verify_of_sign {m aux sig : Bytes} {secret : Int} (h : sign m secret aux = .ok sig) :
    verify m (xBytes (Point.ofScalar secret.toNat)) sig = true := by
  obtain ⟨d, rfl, hd, hdlt, k, hk, hkpos, rfl⟩ := sign_eq_ok_iff.mp h
  exact verify_signature hd hdlt hkpos (hk ▸ nonce_lt _ _ _ _)

end TokenMetadata.Schnorr
